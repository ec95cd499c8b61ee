/-
  Unbundle.Proofs.Schema.Run — what one line, and a run of lines, does to a scan.

  A run goes on after refused lines, which change the number of lines seen and nothing else. Once a block is
  open, a line that neither opens another nor is refused is absorbed by it, whatever stands around the block.

  - `next_header`, `next_idle`, `next_open`, `next_refused`, `next_absorb`: what a line can do, case by case.
  - `blocks_next`, `earlier_isPrefix_feed`: the blocks in front of the one opened last stay as they are.
  - `feed_front`: what stands in front of the first block only leaves header lines behind.
  - `feed_absorb`: lines that stay inside a block are absorbed one after the other.
  - `pushAll_eq_ok_iff`, `ofLines_eq_ok_iff`: a run that ends at the first refused line succeeds if all lines are
    kept.
-/

import Mathlib.Data.List.Induction
import Mathlib.Data.List.Infix
import Unbundle.Proofs.Schema.Line
import Unbundle.Schema.Scan

namespace Unbundle

open Line

variable {v : Vocabulary}

/-! ## Levels -/

/-- How many levels lines open, less those they close. -/
def levels (v : Vocabulary) (lines : List String) : Int :=
  lines.countP (fun line => ∃ name, Opens v line name) - lines.countP (fun line => Closes line)

/-- Lines behind `depth` open levels neither open nor close anything at depth 0. -/
def Inside (v : Vocabulary) (depth : Nat) (lines : List String) : Prop :=
  ∀ before line after, lines = before ++ line :: after → (∃ name, Opens v line name) ∨ Closes line →
    0 < depth + levels v before

@[simp] theorem levels_nil : levels v [] = 0 := rfl

theorem levels_append (before after : List String) : levels v (before ++ after) = levels v before + levels v after := by
  unfold levels
  rw [List.countP_append, List.countP_append]
  omega

theorem levels_of_opens {line name : String} (h : Opens v line name) : levels v [line] = 1 := by
  have ho : ∃ name, Opens v line name := ⟨name, h⟩
  simp [levels, ho, h.not_closes]

theorem levels_of_closes {line : String} (h : Closes line) : levels v [line] = -1 := by
  have ho : ¬ ∃ name, Opens v line name := fun ⟨_, ho⟩ => ho.not_closes h
  simp [levels, ho, h]

/-- Lines of all other kinds leave the level as it is. -/
theorem levels_of_neither {line : String} (h : ¬ ((∃ name, Opens v line name) ∨ Closes line)) :
    levels v [line] = 0 := by
  obtain ⟨ho, hc⟩ := not_or.mp h
  simp [levels, ho, hc]

theorem levels_of_kind {line : String} (ho : ∀ name, LineKind.of v true line ≠ .opener name)
    (hc : LineKind.of v true line ≠ .closing) : levels v [line] = 0 := by
  refine levels_of_neither fun h => ?_
  rcases h with ⟨name, h⟩ | h
  · exact ho name (LineKind.of_eq_opener_iff.mpr h)
  · exact hc (LineKind.of_eq_closing_iff.mpr h)

theorem levels_of_idle {lines : List String} (h : ∀ line ∈ lines, Idle v line) :
    levels v lines = 0 := by
  induction lines with
  | nil => rfl
  | cons line lines ih =>
    obtain ⟨hLine, hLines⟩ := List.forall_mem_cons.mp h
    rw [← List.singleton_append, levels_append, levels_of_neither hLine.1, ih hLines, Int.zero_add]

theorem Line.Announces.neither {line : String} (h : Announces v line) :
    ¬ ((∃ name, Opens v line name) ∨ Closes line) := by
  intro hLine
  rcases hLine with ⟨name, ho⟩ | hc
  · exact ho.1 h
  · exact hc.not_announces h

theorem levels_filter (lines : List String) :
    levels v (lines.filter fun line => ¬ Announces v line) = levels v lines := by
  induction lines with
  | nil => rfl
  | cons line lines ih =>
    rw [← List.singleton_append, List.filter_append, levels_append, levels_append, ih]
    by_cases h : Announces v line
    · simp [h, levels_of_neither h.neither]
    · simp [h]

theorem Inside.nil (depth : Nat) : Inside v depth [] := fun before line after h => by simp at h

theorem Inside.of_idle {lines : List String} (h : ∀ line ∈ lines, Idle v line) (depth : Nat) :
    Inside v depth lines := by
  intro before line after hSplit hLine
  exact absurd hLine (h line (hSplit ▸ List.mem_append_right _ List.mem_cons_self)).1

theorem inside_concat_iff {depth : Nat} {lines : List String} {line : String} : Inside v depth (lines ++ [line]) ↔
    Inside v depth lines ∧ ((∃ name, Opens v line name) ∨ Closes line → 0 < depth + levels v lines) := by
  constructor
  · intro h
    refine ⟨fun before l after hl => h before l (after ++ [line]) (by simp [hl]), h lines line [] rfl⟩
  · intro ⟨h, hline⟩ before l after hl
    rcases List.eq_nil_or_concat after with rfl | ⟨after, last, rfl⟩
    · obtain ⟨rfl, he⟩ := List.append_inj' hl rfl
      obtain rfl : line = l := List.singleton_inj.mp he
      exact hline
    · rw [List.concat_eq_append, ← List.cons_append, ← List.append_assoc] at hl
      exact h before l after (List.append_inj' hl rfl).1

/-- Lines stay inside without those that announce command ids. -/
theorem Inside.filter {depth : Nat} {lines : List String} (h : Inside v depth lines) :
    Inside v depth (lines.filter fun line => ¬ Announces v line) := by
  induction lines using List.reverseRecOn with
  | nil => exact h
  | append_singleton lines line ih =>
    obtain ⟨hLines, hLine⟩ := inside_concat_iff.mp h
    rw [List.filter_append]
    by_cases ha : Announces v line
    · simpa [ha] using ih hLines
    · simp only [List.filter_cons, ha, not_false_eq_true, decide_true, if_true, List.filter_nil]
      refine inside_concat_iff.mpr ⟨ih hLines, ?_⟩
      rw [levels_filter]
      exact hLine

/-- Lines that close all they open may stand in front. -/
theorem Inside.append {depth : Nat} {lines more : List String} (h : Inside v depth lines)
    (hZero : levels v lines = 0) (hMore : Inside v depth more) : Inside v depth (lines ++ more) := by
  induction more using List.reverseRecOn with
  | nil => rwa [List.append_nil]
  | append_singleton more line ih =>
    obtain ⟨hMore, hLine⟩ := inside_concat_iff.mp hMore
    rw [← List.append_assoc]
    refine inside_concat_iff.mpr ⟨ih hMore, ?_⟩
    rw [levels_append, hZero, Int.zero_add]
    exact hLine

/-! ## Absorbing lines -/

/-- The block with a line that neither opens another block nor is refused. -/
def Block.absorb (v : Vocabulary) (b : Block) (line : String) : Block :=
  match LineKind.of v true line with
  | .header | .commandId _ => b
  | .opener name => (b.nest name).append line none
  | .nameless | .closing => b.append line none
  | .plain reference? => b.append line reference?

/-- The type that a line in a block names. -/
def Line.reference? (v : Vocabulary) (line : String) : Option String :=
  match LineKind.of v true line with
  | .plain reference? => reference?
  | _ => none

namespace Line

variable {line name : String}

theorem reference?_of_opens (h : Opens v line name) : reference? v line = none := by
  rw [reference?, LineKind.of_eq_opener_iff.mpr h]

theorem reference?_of_announces (h : Announces v line) : reference? v line = none := by
  obtain ⟨id, hId⟩ := LineKind.of_eq_commandId_iff.mpr h
  rw [reference?, hId]

theorem reference?_of_closes (h : Closes line) : reference? v line = none := by
  rw [reference?, LineKind.of_eq_closing_iff.mpr h]

theorem reference?_eq_some (h : reference? v line = some name) :
    LineKind.reference? v (Text.trim line.toList) = some name := by
  unfold reference? at h
  split at h
  · rename_i hk
    rw [← LineKind.eq_of_of_eq_plain hk, h]
  · cases h

end Line

namespace Block

variable (b : Block) (line : String) (lines : List String)

theorem absorb_of_announces {line : String} (h : Announces v line) : b.absorb v line = b := by
  obtain ⟨id, hk⟩ := LineKind.of_eq_commandId_iff.mpr h
  rw [absorb, hk]

theorem absorb_of_not_announces {line : String} (h : ¬ Announces v line) :
    b.absorb v line = ((opened? v line).elim b b.nest).append line (Line.reference? v line) := by
  unfold absorb opened? Line.reference?
  cases hk : LineKind.of v true line with
  | header => exact absurd hk LineKind.of_true_ne_header
  | commandId id => exact absurd (LineKind.of_eq_commandId_iff.mp ⟨id, hk⟩) h
  | opener name => rfl
  | nameless => rfl
  | closing => rfl
  | plain reference? => rfl

@[simp] theorem absorb_name : (b.absorb v line).name = b.name := by unfold absorb; split <;> rfl
@[simp] theorem absorb_commandId : (b.absorb v line).commandId = b.commandId := by unfold absorb; split <;> rfl

theorem absorb_body : (b.absorb v line).body = b.body ++ [line].filter fun line => ¬ Announces v line := by
  by_cases h : Announces v line
  · simp [absorb_of_announces b h, h]
  · rw [absorb_of_not_announces b h]
    cases opened? v line <;> simp [append, nest, h]

theorem absorb_references : (b.absorb v line).references = b.references ++ (Line.reference? v line).toList := by
  unfold absorb Line.reference?
  cases LineKind.of v true line <;> simp [append, nest]

theorem mem_absorb_nested {name : String} :
    name ∈ (b.absorb v line).nested ↔ name ∈ b.nested ∨ Opens v line name := by
  rw [← opened?_eq_some_iff, absorb, opened?]
  cases LineKind.of v true line <;> simp [append, nest, eq_comm, or_comm]

@[simp] theorem foldl_absorb_name : (lines.foldl (absorb v) b).name = b.name := by
  induction lines generalizing b with
  | nil => rfl
  | cons line lines ih => rw [List.foldl_cons, ih, absorb_name]

@[simp] theorem foldl_absorb_commandId : (lines.foldl (absorb v) b).commandId = b.commandId := by
  induction lines generalizing b with
  | nil => rfl
  | cons line lines ih => rw [List.foldl_cons, ih, absorb_commandId]

theorem foldl_absorb_body :
    (lines.foldl (absorb v) b).body = b.body ++ lines.filter fun line => ¬ Announces v line := by
  induction lines generalizing b with
  | nil => simp
  | cons line lines ih => rw [List.foldl_cons, ih, absorb_body, List.append_assoc, ← List.filter_append]; rfl

theorem foldl_absorb_references :
    (lines.foldl (absorb v) b).references = b.references ++ lines.filterMap (Line.reference? v) := by
  induction lines generalizing b with
  | nil => simp
  | cons line lines ih =>
    rw [List.foldl_cons, ih, absorb_references, List.append_assoc]
    cases h : Line.reference? v line <;> simp [h]

theorem mem_foldl_absorb_nested {name : String} : name ∈ (lines.foldl (absorb v) b).nested ↔
    name ∈ b.nested ∨ ∃ line ∈ lines, Opens v line name := by
  induction lines generalizing b with
  | nil => simp
  | cons line lines ih =>
    rw [List.foldl_cons, ih, mem_absorb_nested, or_assoc]
    simp

/-- Lines that announce command ids are absorbed without a trace. -/
theorem foldl_absorb_filter :
    (lines.filter fun line => ¬ Announces v line).foldl (absorb v) b = lines.foldl (absorb v) b := by
  induction lines generalizing b with
  | nil => rfl
  | cons line lines ih =>
    by_cases h : Announces v line
    · rw [List.filter_cons_of_neg (by simpa using h), ih, List.foldl_cons, absorb_of_announces b h]
    · rw [List.filter_cons_of_pos (by simpa using h), List.foldl_cons, ih, List.foldl_cons]

end Block

namespace Scan

/-- The scan after one more line, refused or not. -/
def next (v : Vocabulary) (s : Scan) (line : String) : Scan := (s.push v line).value.1

def refuses (v : Vocabulary) (s : Scan) (line : String) : Bool := (s.push v line).value.2.isSome

/-- The scan after more lines; a refused line does not end it. -/
def feed (v : Vocabulary) (s : Scan) (lines : List String) : Scan := lines.foldl (next v) s

/-- The lines that are not refused. -/
def kept (v : Vocabulary) (s : Scan) : List String → List String
  | [] => []
  | line :: rest => if s.refuses v line then (s.next v line).kept v rest else line :: (s.next v line).kept v rest

@[simp] theorem feed_nil (s : Scan) : s.feed v [] = s := rfl

@[simp] theorem feed_cons (s : Scan) (line : String) (rest : List String) :
    s.feed v (line :: rest) = (s.next v line).feed v rest := rfl

theorem feed_append (s : Scan) (lines more : List String) : s.feed v (lines ++ more) = (s.feed v lines).feed v more :=
  List.foldl_append

@[simp] theorem kept_singleton (s : Scan) (line : String) :
    s.kept v [line] = if s.refuses v line then [] else [line] := rfl

theorem kept_append (s : Scan) (lines more : List String) :
    s.kept v (lines ++ more) = s.kept v lines ++ (s.feed v lines).kept v more := by
  induction lines generalizing s with
  | nil => rfl
  | cons line lines ih =>
    simp only [List.cons_append, kept, feed_cons]
    split
    · exact ih _
    · rw [ih, List.cons_append]

theorem kept_sublist (s : Scan) (lines : List String) : (s.kept v lines).Sublist lines := by
  induction lines generalizing s with
  | nil => exact .slnil
  | cons line lines ih =>
    rw [kept]
    split
    · exact (ih _).cons line
    · exact (ih _).cons_cons line

@[simp] theorem value_finish (s : Scan) : s.finish.value = ⟨s.header, s.blocks⟩ := by
  unfold finish
  split <;> rfl

/-- What a line of a known kind does, without what is reported about it. -/
theorem value_step (s : Scan) (kind : LineKind) (line : String) : (s.step kind line).value =
    let s := { s with lineNumber := s.lineNumber + 1 }
    match kind with
    | .header => ({ s with header := s.header ++ [line] }, none)
    | .commandId id => ({ s with pending := id }, none)
    | .opener name =>
      (if s.current?.isSome ∧ 0 < s.depth then s.openNested name line else s.openBlock name line, none)
    | .nameless => (s.change (·.append line none), none)
    | .closing =>
      if s.depth = 0 then (s, some (.unbalanced s.lineNumber))
      else ({ s.change (·.append line none) with depth := s.depth - 1 }, none)
    | .plain reference? => (s.change (·.append line reference?), none) := by
  cases kind with
  | opener name =>
    simp only [step, Bool.and_eq_true, decide_eq_true_eq]
    split <;> rfl
  | closing =>
    simp only [step]
    split <;> rfl
  | header => rfl
  | commandId id => rfl
  | nameless => rfl
  | plain reference? => rfl

/-! ## One line -/

variable {s : Scan} {b : Block} {line : String}

theorem next_header (hc : s.current? = none) (h : IsHeader v line) : s.refuses v line = false ∧
    s.next v line = { s with lineNumber := s.lineNumber + 1, header := s.header ++ [line] } := by
  have hk : LineKind.of v s.current?.isSome line = .header := LineKind.of_eq_header_iff.mpr ⟨by simp [hc], h⟩
  unfold refuses next push
  rw [hk]
  exact ⟨rfl, rfl⟩

/-- A line in front of the first block that is no header line and opens nothing is passed over. -/
theorem next_idle (hc : s.current? = none) (hh : ¬ IsHeader v line)
    (h : ¬ ((∃ name, Opens v line name) ∨ Closes line)) : s.refuses v line = false ∧
      ∃ id, (¬ Announces v line → id = s.pending) ∧
        s.next v line = { s with lineNumber := s.lineNumber + 1, pending := id } := by
  unfold refuses next push
  rw [LineKind.of_of_not_header (.inr hh)]
  cases hk : LineKind.of v true line with
  | header => exact absurd hk LineKind.of_true_ne_header
  | commandId id => exact ⟨rfl, id, fun ha => absurd (LineKind.of_eq_commandId_iff.mp ⟨id, hk⟩) ha, rfl⟩
  | opener name => exact absurd (.inl ⟨name, LineKind.of_eq_opener_iff.mp hk⟩) h
  | closing => exact absurd (.inr (LineKind.of_eq_closing_iff.mp hk)) h
  | nameless => exact ⟨rfl, s.pending, fun _ => rfl, by simp [step, change, hc]⟩
  | plain reference? => exact ⟨rfl, s.pending, fun _ => rfl, by simp [step, change, hc]⟩

theorem next_open {name : String} (hh : s.current?.isSome ∨ ¬ IsHeader v line) (hd : s.current? = none ∨ s.depth = 0)
    (h : Opens v line name) : s.refuses v line = false ∧
      s.next v line = { s.openBlock name line with lineNumber := s.lineNumber + 1 } := by
  have hn : ¬ (s.current?.isSome = true ∧ 0 < s.depth) := by
    intro ⟨h1, h2⟩
    rcases hd with hd | hd
    · simp [hd] at h1
    · omega
  unfold refuses next push
  rw [LineKind.of_of_not_header hh, LineKind.of_eq_opener_iff.mpr h]
  simp [step, hn, openBlock, blocks]

theorem next_refused (hh : s.current?.isSome ∨ ¬ IsHeader v line) (hd : s.depth = 0) (h : Closes line) :
    s.refuses v line = true ∧ s.next v line = { s with lineNumber := s.lineNumber + 1 } := by
  unfold refuses next push
  rw [LineKind.of_of_not_header hh, LineKind.of_eq_closing_iff.mpr h]
  simp [step, hd]

/-- A line inside a block is absorbed by it. -/
theorem next_absorb (hc : s.current? = some b) (h : (∃ name, Opens v line name) ∨ Closes line → 0 < s.depth) :
    s.refuses v line = false ∧ (s.next v line).current? = some (b.absorb v line) ∧
      ((s.next v line).depth : Int) = s.depth + levels v [line] ∧ (s.next v line).earlier = s.earlier ∧
      (s.next v line).header = s.header := by
  unfold refuses next push Block.absorb
  rw [show s.current?.isSome = true by simp [hc]]
  cases hk : LineKind.of v true line with
  | header => exact absurd hk LineKind.of_true_ne_header
  | opener name =>
    have ho : Opens v line name := LineKind.of_eq_opener_iff.mp hk
    have hd := h (.inl ⟨name, ho⟩)
    simp [step, openNested, change, hc, hd, levels_of_opens ho]
  | closing =>
    have hl : Closes line := LineKind.of_eq_closing_iff.mp hk
    have hd := h (.inr hl)
    simp [step, change, hc, levels_of_closes hl, Nat.ne_of_gt hd]
    omega
  | commandId id =>
    have hl : levels v [line] = 0 := levels_of_kind (by simp [hk]) (by simp [hk])
    simp [step, hc, hl]
  | nameless =>
    have hl : levels v [line] = 0 := levels_of_kind (by simp [hk]) (by simp [hk])
    simp [step, change, hc, hl]
  | plain reference? =>
    have hl : levels v [line] = 0 := levels_of_kind (by simp [hk]) (by simp [hk])
    simp [step, change, hc, hl]

/-- A line adds a block behind all others, or it changes the block opened last and no other: the name of that block stays,
    and its body grows by this line at most. -/
theorem blocks_next (s : Scan) (line : String) :
    (∃ name, LineKind.of v s.current?.isSome line = .opener name ∧ ¬ (s.current?.isSome = true ∧ 0 < s.depth) ∧
      (s.next v line).earlier = s.blocks ∧ (s.next v line).current? = some (.opened name s.pending line)) ∨
    (∀ name, LineKind.of v s.current?.isSome line = .opener name → s.current?.isSome = true ∧ 0 < s.depth) ∧
      (s.next v line).earlier = s.earlier ∧ ∃ change : Block → Block,
        (s.next v line).current? = s.current?.map change ∧
        ∀ b, (change b).name = b.name ∧ ((change b).body = b.body ∨ (change b).body = b.body ++ [line]) := by
  unfold next push
  rw [value_step]
  cases LineKind.of v s.current?.isSome line with
  | opener name =>
    by_cases hNested : s.current?.isSome = true ∧ 0 < s.depth
    · refine .inr ⟨fun _ _ => hNested, ?_⟩
      dsimp only
      rw [if_pos hNested]
      exact ⟨rfl, fun b => (b.nest name).append line none, rfl, fun b => ⟨rfl, .inr rfl⟩⟩
    · refine .inl ⟨name, rfl, hNested, ?_⟩
      dsimp only
      rw [if_neg hNested]
      exact ⟨rfl, rfl⟩
  | closing =>
    refine .inr ⟨nofun, ?_⟩
    dsimp only
    by_cases hDepth : s.depth = 0
    · rw [if_pos hDepth]
      exact ⟨rfl, id, by rw [Option.map_id, id], fun b => ⟨rfl, .inl rfl⟩⟩
    · rw [if_neg hDepth]
      exact ⟨rfl, (·.append line none), rfl, fun b => ⟨rfl, .inr rfl⟩⟩
  | header | commandId => exact .inr ⟨nofun, rfl, id, by rw [Option.map_id, id], fun b => ⟨rfl, .inl rfl⟩⟩
  | nameless => exact .inr ⟨nofun, rfl, (·.append line none), rfl, fun b => ⟨rfl, .inr rfl⟩⟩
  | plain reference? => exact .inr ⟨nofun, rfl, (·.append line reference?), rfl, fun b => ⟨rfl, .inr rfl⟩⟩

/-- No line changes the blocks in front of the one opened last. -/
theorem earlier_isPrefix_next (s : Scan) (line : String) : s.earlier <+: (s.next v line).earlier := by
  rcases blocks_next (v := v) s line with ⟨_, _, _, hEarlier, _⟩ | ⟨_, hEarlier, _⟩
  · rw [hEarlier]
    exact List.prefix_append s.earlier s.current?.toList
  · rw [hEarlier]

/-! ## Runs of lines -/

theorem earlier_isPrefix_feed (s : Scan) (lines : List String) : s.earlier <+: (s.feed v lines).earlier := by
  induction lines generalizing s with
  | nil => exact List.prefix_rfl
  | cons line lines ih => exact (earlier_isPrefix_next s line).trans (ih (s.next v line))

/-- Header lines and lines without any meaning, in front of the first block. -/
theorem feed_front {lines : List String} (hc : s.current? = none) (h : ∀ line ∈ lines, IsHeader v line ∨ Idle v line) :
    s.kept v lines = lines ∧ s.feed v lines =
      { s with lineNumber := s.lineNumber + lines.length, header := s.header ++ lines.filter (IsHeader v ·) } := by
  induction lines generalizing s with
  | nil => simp [kept]
  | cons line lines ih =>
    obtain ⟨hLine, hLines⟩ := List.forall_mem_cons.mp h
    rw [kept, feed_cons]
    by_cases hHead : IsHeader v line
    · obtain ⟨hr, hn⟩ := next_header hc hHead
      obtain ⟨hk, hf⟩ := ih (s := s.next v line) (by rw [hn]; exact hc) hLines
      rw [hr, hk, hf, hn]
      simp [hHead, Nat.add_assoc, Nat.add_comm 1]
    · obtain ⟨hIdle, hNone⟩ := hLine.resolve_left hHead
      obtain ⟨hr, id, hId, hn⟩ := next_idle hc hHead hIdle
      rw [hId hNone] at hn
      obtain ⟨hk, hf⟩ := ih (s := s.next v line) (by rw [hn]; exact hc) hLines
      rw [hr, hk, hf, hn]
      simp [hHead, Nat.add_assoc, Nat.add_comm 1]

/-- Lines that stay inside a block are absorbed by it, one after the other. -/
theorem feed_absorb {lines : List String} (hc : s.current? = some b) (h : Inside v s.depth lines) :
    s.kept v lines = lines ∧ (s.feed v lines).current? = some (lines.foldl (Block.absorb v) b) ∧
      ((s.feed v lines).depth : Int) = s.depth + levels v lines ∧ (s.feed v lines).earlier = s.earlier ∧
      (s.feed v lines).header = s.header := by
  induction lines using List.reverseRecOn with
  | nil => exact ⟨rfl, hc, by simp, rfl, rfl⟩
  | append_singleton lines line ih =>
    obtain ⟨hin, hline⟩ := inside_concat_iff.mp h
    obtain ⟨hk, hcur, hd, he, hh⟩ := ih hin
    obtain ⟨hr, hcur', hd', he', hh'⟩ := next_absorb hcur fun hl => by
      have := hline hl
      omega
    rw [feed_append, kept_append, hk, feed_cons, feed_nil, List.foldl_append]
    refine ⟨by simp [kept, hr], hcur', ?_, he'.trans he, hh'.trans hh⟩
    rw [hd', hd, levels_append]
    omega

/-- A run that ends at the first refused line succeeds if no line is refused. -/
theorem pushAll_eq_ok_iff {lines : List String} {s' : Scan} :
    (s.pushAll v lines).value = .ok s' ↔ s.kept v lines = lines ∧ s' = s.feed v lines := by
  induction lines generalizing s with
  | nil => simp [pushAll, kept, eq_comm]
  | cons line lines ih =>
    rw [pushAll, Logged.value_bind, kept, feed_cons]
    unfold refuses next
    rcases (s.push v line).value with ⟨t, _ | failure⟩
    · simpa using ih
    · simp only [Logged.value_pure, reduceCtorEq, Option.isSome_some, if_true, false_iff, not_and]
      intro hk
      have hl := (kept_sublist (v := v) t lines).length_le
      rw [hk, List.length_cons] at hl
      omega

end Scan

/-- A schema is what its scan comes to, and a failure stays one. -/
theorem Schema.value_ofLines (v : Vocabulary) (lines : List String) :
    (Schema.ofLines v lines).value = (Scan.start.pushAll v lines).value.map fun s => ⟨s.header, s.blocks⟩ := by
  rw [ofLines, Logged.value_bind]
  rcases (Scan.start.pushAll v lines).value with failure | s
  · rfl
  · exact congrArg Except.ok s.value_finish

/-- Lines make a schema if none of them is refused. -/
theorem Schema.ofLines_eq_ok_iff {lines : List String} {schema : Schema} :
    (Schema.ofLines v lines).value = .ok schema ↔
      Scan.start.kept v lines = lines ∧
        schema = ⟨(Scan.start.feed v lines).header, (Scan.start.feed v lines).blocks⟩ := by
  have hRun : ∀ s', (Scan.start.pushAll v lines).value = .ok s' ↔
      Scan.start.kept v lines = lines ∧ s' = Scan.start.feed v lines := fun s' => Scan.pushAll_eq_ok_iff
  rw [ofLines, Logged.value_bind]
  rcases hPush : (Scan.start.pushAll v lines).value with failure | s'
  · have hRefused : Scan.start.kept v lines ≠ lines := fun hk => by
      cases hPush.symm.trans ((hRun _).mpr ⟨hk, rfl⟩)
    simp [hRefused]
  · obtain ⟨hk, rfl⟩ := (hRun s').mp hPush
    simp [hk, eq_comm]

/-- Lines of one block, behind lines that open none. -/
theorem Schema.ofLines_front_append {front rest : List String} {opening name : String}
    (hFront : ∀ line ∈ front, IsHeader v line ∨ Idle v line) (hHeader : ¬ IsHeader v opening)
    (hOpens : Opens v opening name) (hInside : Inside v 1 rest) :
    (Schema.ofLines v (front ++ opening :: rest)).value =
      .ok ⟨front.filter (IsHeader v ·), [rest.foldl (Block.absorb v) (.opened name 0 opening)]⟩ := by
  obtain ⟨hkFront, hFeed⟩ := Scan.feed_front (s := .start) rfl hFront
  obtain ⟨hr, hn⟩ := Scan.next_open (s := Scan.start.feed v front) (.inr hHeader) (.inl (by rw [hFeed]; rfl)) hOpens
  have hCurrent : ((Scan.start.feed v front).next v opening).current? = some (.opened name 0 opening) := by
    rw [hn, hFeed]
    rfl
  have hDepth : ((Scan.start.feed v front).next v opening).depth = 1 := by
    rw [hn, hFeed]
    rfl
  obtain ⟨hkRest, hBlock, _, hEarlier, hHead⟩ := Scan.feed_absorb hCurrent (hDepth ▸ hInside)
  refine Schema.ofLines_eq_ok_iff.mpr ⟨?_, ?_⟩
  · rw [Scan.kept_append, hkFront, Scan.kept, hr, hkRest]
    rfl
  · rw [Scan.feed_append, Scan.feed_cons, Scan.blocks, hBlock, hEarlier, hHead, hn, hFeed]
    rfl

end Unbundle
