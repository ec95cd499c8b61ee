/-
  Unbundle.Proofs.Schema.Insertion — comments and blank lines do nothing to a schema.

  Lines are inserted among the own lines of a schema: blank ones, and comments that announce no command id. A scan of
  all lines comes to what a scan of the own lines comes to, with the inserted lines that stand behind the opening line
  of a block in its body. Both scans are views of one scan whose blocks keep their lines marked, as own or inserted.

  - `kind_inert`: a line that may be inserted is one that names no type.
  - `value_step_view`: what a line does to a marked scan, it does to every view in which the line is seen.
  - `feed_originals`, `feed_texts`: the runs over the own lines and over all lines, as views.
  - `inserted_lines_are_inert`: the schema, or the failure, of all lines by that of the own lines.
-/

import Mathlib.Data.List.TakeWhile
import Unbundle.Proofs.Schema.Balance
import Unbundle.Proofs.Schema.Standard

namespace Unbundle

open Line

/-! ## Lines that may be inserted -/

theorem Text.takeIdentifier?_eq_none {cs : List Char} (h : ∀ c, cs.head? = some c → isIdentifierChar c = false) :
    takeIdentifier? cs = none := by
  cases cs with
  | nil => rfl
  | cons c cs =>
    have hNone : ¬ isIdentifierChar c = true := by simp [h c rfl]
    rw [takeIdentifier?, List.takeWhile_cons_of_neg hNone]

namespace Line

/-- The line is blank, or a comment that announces no command id. -/
def IsInert (v : Vocabulary) (line : String) : Prop :=
  Text.trim line.toList = [] ∨ ['/', '/'] <+: Text.trim line.toList ∧ ¬ Announces v line

instance (v : Vocabulary) (line : String) : Decidable (IsInert v line) :=
  inferInstanceAs (Decidable (_ ∨ _ <+: _ ∧ _))

variable {suppressed : List String} {line : String}

theorem IsInert.head?_eq (h : IsInert (.protobuf suppressed) line) : head? line = none ∨ head? line = some '/' := by
  rcases h with hBlank | ⟨hComment, _⟩
  · rw [head?, hBlank]
    exact .inl rfl
  · exact .inr (head?_of_isPrefix (by decide) hComment)

theorem IsInert.not_announces (h : IsInert (.protobuf suppressed) line) : ¬ Announces (.protobuf suppressed) line := by
  rcases h with hBlank | ⟨_, hNone⟩
  · intro hAnnounces
    have hHead := hAnnounces.head?_eq
    rw [head?, hBlank] at hHead
    cases hHead
  · exact hNone

theorem IsInert.neither (h : IsInert (.protobuf suppressed) line) :
    ¬ ((∃ name, Opens (.protobuf suppressed) line name) ∨ Closes line) := by
  refine neither_of_head? ?_
  rcases h.head?_eq with hHead | hHead <;> rw [hHead] <;> decide

/-- Whether a block is open or not, the line is one that names no type. -/
theorem kind_inert (h : IsInert (.protobuf suppressed) line) (inBlock : Bool) :
    LineKind.of (.protobuf suppressed) inBlock line = .plain none := by
  have hHead := h.head?_eq
  have hHeader : ¬ IsHeader (.protobuf suppressed) line := by
    intro hLine
    have hMem := hLine.head?_mem
    rcases hHead with hHead | hHead <;> rw [hHead] at hMem <;> exact absurd hMem (by decide)
  have hId : LineKind.commandId? (Vocabulary.protobuf suppressed).marker (Text.trim line.toList) = none := by
    rw [← Option.not_isSome_iff_eq_none, LineKind.commandId?_isSome_iff]
    exact h.not_announces
  have hWord : nestingWord? (.protobuf suppressed) line = none := by
    refine List.find?_eq_none.mpr fun word hMem hPrefix => ?_
    have hWords : ∀ word ∈ Vocabulary.nestingWords,
        ¬ ((word.toList ++ [' ']).head? = none ∨ (word.toList ++ [' ']).head? = some '/') := by decide
    refine hWords word hMem ?_
    rw [← head?_of_isPrefix (by simp) (List.isPrefixOf_iff_prefix.mp hPrefix)]
    exact hHead
  have hName : Text.takeIdentifier? (Text.trim line.toList) = none := by
    refine Text.takeIdentifier?_eq_none fun c hc => ?_
    rw [head?, hc] at hHead
    obtain rfl : c = '/' := by simpa using hHead
    decide
  have hReference : LineKind.reference? (.protobuf suppressed) (Text.trim line.toList) = none := by
    rw [LineKind.reference?, hName]
  rw [LineKind.of_of_not_header (.inr hHeader), LineKind.of_true, hId, LineKind.afterNestingWord?_eq, hWord]
  have hCloses : ¬ Text.trim line.toList = ['\x7d'] := fun hLine => h.neither (.inr hLine)
  simp only [Option.bind_none]
  rw [if_neg hCloses, hReference]

end Line

/-! ## Lines with others inserted -/

/-- A line, and whether it was inserted among others. -/
inductive Placed where
  | own (line : String)
  | inserted (line : String)

namespace Placed

def line : Placed → String
  | own line | inserted line => line

def own? : Placed → Option String
  | own line => some line
  | inserted _ => none

/-- The lines as they were before any were inserted. -/
def originals (mixed : List Placed) : List String := mixed.filterMap own?

/-- All lines. -/
def texts (mixed : List Placed) : List String := mixed.map line

/-- How many lines are inserted. -/
def insertions (mixed : List Placed) : Nat := mixed.countP fun p => p.own?.isNone

/-- The lines from the first on that opens a level. -/
def behindOpening (v : Vocabulary) (mixed : List Placed) : List Placed :=
  mixed.dropWhile fun p => ¬ ∃ name, Opens v p.line name

theorem originals_append (mixed more : List Placed) : originals (mixed ++ more) = originals mixed ++ originals more :=
  List.filterMap_append

@[simp] theorem originals_own (line : String) : originals [own line] = [line] := rfl

@[simp] theorem originals_inserted (line : String) : originals [inserted line] = [] := rfl

theorem texts_append (mixed more : List Placed) : texts (mixed ++ more) = texts mixed ++ texts more := List.map_append

theorem length_originals (mixed : List Placed) : (originals mixed).length + insertions mixed = mixed.length := by
  rw [originals, insertions, List.length_filterMap_eq_countP, List.length_eq_countP_add_countP (fun p => p.own?.isSome)]
  refine congrArg _ (List.countP_congr fun p _ => ?_)
  cases p <;> simp [own?]

/-- An own line stands somewhere among all lines, behind the lines in front of it. -/
theorem exists_split_of_originals_eq {mixed : List Placed} {before after : List String} {line : String}
    (h : originals mixed = before ++ line :: after) : ∃ front behind, mixed = front ++ own line :: behind ∧
      originals front = before := by
  obtain ⟨front, rest, rfl, rfl, hRest⟩ := List.filterMap_eq_append_iff.mp h
  obtain ⟨skipped, p, behind, rfl, hSkipped, hLine, _⟩ := List.filterMap_eq_cons_iff.mp hRest
  have hOwn : p = own line := by
    cases p with
    | own text => exact congrArg own (Option.some.inj hLine)
    | inserted text => cases hLine
  refine ⟨front ++ skipped, behind, by rw [hOwn, List.append_assoc], ?_⟩
  rw [originals_append, originals, originals, List.filterMap_eq_nil_iff.mpr hSkipped, List.append_nil]

theorem behindOpening_concat (v : Vocabulary) (mixed : List Placed) (p : Placed) : behindOpening v (mixed ++ [p]) =
    behindOpening v mixed ++ if ∃ q ∈ mixed ++ [p], ∃ name, Opens v q.line name then [p] else [] := by
  have hEmpty : behindOpening v mixed = [] ↔ ¬ ∃ q ∈ mixed, ∃ name, Opens v q.line name := by
    simp [behindOpening, List.dropWhile_eq_nil_iff]
  have hSplit : (∃ q ∈ mixed ++ [p], ∃ name, Opens v q.line name) ↔
      (∃ q ∈ mixed, ∃ name, Opens v q.line name) ∨ ∃ name, Opens v p.line name := by
    simp only [List.mem_append, List.mem_singleton, or_and_right, exists_or, exists_eq_left]
  have hAppend : behindOpening v (mixed ++ [p]) = if (behindOpening v mixed).isEmpty = true then behindOpening v [p]
      else behindOpening v mixed ++ [p] := List.dropWhile_append
  rw [hAppend]
  simp only [hSplit, List.isEmpty_iff, hEmpty]
  by_cases hOpens : ∃ q ∈ mixed, ∃ name, Opens v q.line name
  · rw [if_neg (not_not_intro hOpens), if_pos (.inl hOpens)]
  · -- the line itself may be the first one
    rw [if_pos hOpens, hEmpty.mpr hOpens, behindOpening]
    by_cases hLine : ∃ name, Opens v p.line name
    · rw [if_pos (.inr hLine)]
      simp [hLine]
    · rw [if_neg fun h => h.elim hOpens hLine]
      simp [hLine]

end Placed

/-! ## Scans that keep their lines marked -/

/-- Whether a line of a kind goes to a block, unless it is refused. -/
def LineKind.isTaken (inBlock : Bool) : LineKind → Bool
  | .header | .commandId _ => false
  | .opener _ => true
  | .nameless | .closing | .plain _ => inBlock

theorem LineKind.isTaken_of_iff {suppressed : List String} {inBlock : Bool} {line : String} :
    (LineKind.of (.protobuf suppressed) inBlock line).isTaken inBlock = true ↔
      (inBlock = true ∨ ∃ name, Opens (.protobuf suppressed) line name) ∧
        ¬ Announces (.protobuf suppressed) line := by
  by_cases hHeader : inBlock = false ∧ IsHeader (.protobuf suppressed) line
  · have hNone : ¬ ∃ name, Opens (.protobuf suppressed) line name :=
      fun ⟨name, hOpens⟩ => hOpens.not_isHeader hHeader.2
    rw [of_eq_header_iff.mpr hHeader]
    simp [isTaken, hHeader.1, hNone]
  · rw [of_behind hHeader]
    simp only [← of_eq_opener_iff, ← of_eq_commandId_iff]
    cases hk : of (.protobuf suppressed) true line with
    | header => exact absurd hk of_true_ne_header
    | commandId | opener | nameless | closing | plain => simp [isTaken]

/-- A block whose lines are marked. Its opening line is its own. -/
structure Sheet where
  /-- The block, but for its lines. -/
  block : Block
  opening : String
  rest : List Placed

namespace Sheet

def lines (s : Sheet) : List Placed := .own s.opening :: s.rest

/-- The block with the lines that are seen. -/
def view (seen? : Placed → Option String) (s : Sheet) : Block := { s.block with body := s.lines.filterMap seen? }

/-- The sheet with one more line, and the type the line names, if any. -/
def append (s : Sheet) (p : Placed) (reference? : Option String) : Sheet :=
  ⟨s.block.append p.line reference?, s.opening, s.rest ++ [p]⟩

def nest (s : Sheet) (name : String) : Sheet := { s with block := s.block.nest name }

@[simp] theorem lines_append (s : Sheet) (p : Placed) (reference? : Option String) :
    (s.append p reference?).lines = s.lines ++ [p] := rfl

variable {s : Sheet} {seen? : Placed → Option String} {p : Placed}

theorem view_append {line : String} (h : seen? p = some line) (reference? : Option String) :
    (s.append p reference?).view seen? = (s.view seen?).append line reference? := by
  rw [view, lines_append, List.filterMap_append, List.filterMap_cons_some h]
  rfl

theorem view_append_unseen (h : seen? p = none) : (s.append p none).view seen? = s.view seen? := by
  rw [view, lines_append, List.filterMap_append, List.filterMap_cons_none h, List.filterMap_nil, List.append_nil]
  simp [append, Block.append, view]

end Sheet

/-- A scan in progress whose lines are marked. -/
structure MarkedScan where
  depth : Nat
  pending : UInt32
  header : List String
  earlier : List Sheet
  current? : Option Sheet

namespace MarkedScan

def start : MarkedScan := ⟨0, 0, [], [], none⟩

def sheets (m : MarkedScan) : List Sheet := m.earlier ++ m.current?.toList

/-- All lines in blocks. -/
def lines (m : MarkedScan) : List Placed := m.sheets.flatMap Sheet.lines

/-- The scan of `n` lines, with the lines that are seen. -/
def view (m : MarkedScan) (seen? : Placed → Option String) (n : Nat) : Scan :=
  ⟨n, m.depth, m.pending, m.header, m.earlier.map (Sheet.view seen?), m.current?.map (Sheet.view seen?)⟩

def change (m : MarkedScan) (f : Sheet → Sheet) : MarkedScan := { m with current? := m.current?.map f }

/-- The scan after an own line of a known kind. -/
def step (m : MarkedScan) (kind : LineKind) (line : String) : MarkedScan :=
  match kind with
  | .header => { m with header := m.header ++ [line] }
  | .commandId id => { m with pending := id }
  | .opener name =>
    if m.current?.isSome ∧ 0 < m.depth then
      { m.change fun s => (s.nest name).append (.own line) none with depth := m.depth + 1 }
    else ⟨m.depth + 1, 0, m.header, m.sheets, some ⟨.opened name m.pending line, line, []⟩⟩
  | .nameless => m.change (·.append (.own line) none)
  | .closing => if m.depth = 0 then m else { m.change (·.append (.own line) none) with depth := m.depth - 1 }
  | .plain reference? => m.change (·.append (.own line) reference?)

/-- The scan after one more line. What is inserted only goes to the block opened last. -/
def next (v : Vocabulary) (m : MarkedScan) : Placed → MarkedScan
  | .own line => m.step (.of v m.current?.isSome line) line
  | .inserted line => m.change (·.append (.inserted line) none)

/-- The scan of marked lines. -/
def after (v : Vocabulary) (mixed : List Placed) : MarkedScan := mixed.foldl (next v) start

theorem after_concat (v : Vocabulary) (mixed : List Placed) (p : Placed) :
    after v (mixed ++ [p]) = (after v mixed).next v p := by
  rw [after, List.foldl_append]
  rfl

/-! ## One line -/

variable {v : Vocabulary} {m : MarkedScan} {seen? : Placed → Option String} {n : Nat} {line : String}

@[simp] theorem isSome_view : (m.view seen? n).current?.isSome = m.current?.isSome := Option.isSome_map

@[simp] theorem blocks_view : (m.view seen? n).blocks = m.sheets.map (Sheet.view seen?) := by
  unfold Scan.blocks sheets view
  rw [List.map_append]
  cases m.current? <;> rfl

theorem change_view {f : Sheet → Sheet} {g : Block → Block} (h : ∀ s : Sheet, (f s).view seen? = g (s.view seen?)) :
    (m.change f).view seen? n = (m.view seen? n).change g := by
  unfold change Scan.change view
  simp only [Option.map_map]
  rw [show Sheet.view seen? ∘ f = g ∘ Sheet.view seen? from funext h]

/-- A line that is seen does to a view what it does to the scan. It is refused if it closes a level and none is open. -/
theorem value_step_view (hSeen : seen? (.own line) = some line) (kind : LineKind) :
    ((m.view seen? n).step kind line).value = ((m.step kind line).view seen? (n + 1),
      if kind = .closing ∧ m.depth = 0 then some (.unbalanced (n + 1)) else none) := by
  have hAppend : ∀ reference?, (m.change (·.append (.own line) reference?)).view seen? (n + 1) =
      (m.view seen? (n + 1)).change (·.append line reference?) := fun reference? =>
    change_view fun s => Sheet.view_append hSeen reference?
  have hNest : ∀ name, (m.change fun s => (s.nest name).append (.own line) none).view seen? (n + 1) =
      (m.view seen? (n + 1)).change fun b => (b.nest name).append line none := fun name =>
    change_view fun s => Sheet.view_append hSeen none
  rw [Scan.value_step]
  cases kind with
  | header | commandId => simp [step, view]
  | nameless | plain =>
    simp only [step, hAppend]
    simp [view]
  | closing =>
    have hClosed : ({ m.change (·.append (.own line) none) with depth := m.depth - 1 } : MarkedScan).view seen? (n + 1) =
        { (m.view seen? (n + 1)).change (·.append line none) with depth := m.depth - 1 } := by
      rw [← hAppend]
      rfl
    by_cases hDepth : m.depth = 0
    · simp [step, hDepth, view]
    · simp only [step, if_neg hDepth, hClosed]
      simp [view, hDepth]
  | opener name =>
    have hNested : ({ m.change (fun s => (s.nest name).append (.own line) none) with depth := m.depth + 1 } :
        MarkedScan).view seen? (n + 1) = (m.view seen? (n + 1)).openNested name line := by
      rw [Scan.openNested, ← hNest]
      rfl
    have hOpened : (⟨m.depth + 1, 0, m.header, m.sheets, some ⟨.opened name m.pending line, line, []⟩⟩ :
        MarkedScan).view seen? (n + 1) = (m.view seen? (n + 1)).openBlock name line := by
      rw [Scan.openBlock, blocks_view]
      simp [view, Sheet.view, Sheet.lines, hSeen, Block.opened]
    by_cases h : m.current?.isSome ∧ 0 < m.depth
    · simp only [step, if_pos h, hNested]
      simp [view, h]
    · simp only [step, if_neg h, hOpened]
      simp [view, h]

/-- Whether a line is refused, and why, can be told in every view. -/
theorem push_view (v : Vocabulary) (hSeen : seen? (.own line) = some line) :
    ((m.view seen? n).push v line).value = ((m.next v (.own line)).view seen? (n + 1),
      if LineKind.of v m.current?.isSome line = .closing ∧ m.depth = 0 then some (.unbalanced (n + 1)) else none) := by
  rw [Scan.push, isSome_view, value_step_view hSeen]
  rfl

/-- An inserted line that is seen goes to the block opened last, as an inert line does. -/
theorem push_view_inserted {suppressed : List String} (hSeen : seen? (.inserted line) = some line)
    (hInert : IsInert (.protobuf suppressed) line) : ((m.view seen? n).push (.protobuf suppressed) line).value =
      ((m.next (.protobuf suppressed) (.inserted line)).view seen? (n + 1), none) := by
  have hChange : (m.next (.protobuf suppressed) (.inserted line)).view seen? (n + 1) =
      (m.view seen? (n + 1)).change (·.append line none) := change_view fun s => Sheet.view_append hSeen none
  rw [Scan.push, kind_inert hInert, Scan.value_step, hChange]
  rfl

/-- A line that is not seen changes nothing. -/
theorem view_next_unseen (v : Vocabulary) (hUnseen : seen? (.inserted line) = none) :
    (m.next v (.inserted line)).view seen? n = m.view seen? n := by
  have hChange : (m.next v (.inserted line)).view seen? n = (m.view seen? n).change id :=
    change_view fun s => Sheet.view_append_unseen hUnseen
  rw [hChange, Scan.change, Option.map_id]
  rfl

theorem lines_change {f : Sheet → Sheet} {p : Placed} (h : ∀ s, (f s).lines = s.lines ++ [p]) :
    (m.change f).lines = m.lines ++ if m.current?.isSome then [p] else [] := by
  rcases hCurrent : m.current? with _ | sheet <;> simp [lines, sheets, change, hCurrent, h]

/-- The block opened last takes every line but header lines, announced ids, and lines that are refused. -/
theorem lines_step {kind : LineKind} (hKept : ¬ (kind = .closing ∧ m.depth = 0)) :
    (m.step kind line).lines = m.lines ++ if kind.isTaken m.current?.isSome then [.own line] else [] := by
  cases kind with
  | header | commandId => exact (List.append_nil _).symm
  | nameless | plain => exact lines_change fun s => Sheet.lines_append s _ _
  | closing =>
    have hDepth : m.depth ≠ 0 := fun hZero => hKept ⟨rfl, hZero⟩
    have hClosed : (m.change (·.append (.own line) none)).lines =
        m.lines ++ if m.current?.isSome then [.own line] else [] := lines_change fun s => Sheet.lines_append s _ _
    rw [step, if_neg hDepth]
    exact hClosed
  | opener name =>
    by_cases h : m.current?.isSome ∧ 0 < m.depth
    · have hNested : (m.change fun s => (s.nest name).append (.own line) none).lines =
          m.lines ++ if m.current?.isSome then [.own line] else [] := lines_change fun s => Sheet.lines_append _ _ _
      rw [if_pos h.1] at hNested
      rw [step, if_pos h]
      exact hNested
    · rw [step, if_neg h]
      simp [lines, sheets, Sheet.lines, LineKind.isTaken]

theorem isSome_step {kind : LineKind} :
    (m.step kind line).current?.isSome = true ↔ m.current?.isSome = true ∨ ∃ name, kind = .opener name := by
  cases kind with
  | header | commandId | nameless | plain => simp [step, change]
  | closing => by_cases hDepth : m.depth = 0 <;> simp [step, change, hDepth]
  | opener name => by_cases h : m.current?.isSome ∧ 0 < m.depth <;> simp [step, change, h]

/-! ## Runs of lines -/

theorem next_view (v : Vocabulary) (hSeen : seen? (.own line) = some line) :
    (m.view seen? n).next v line = (m.next v (.own line)).view seen? (n + 1) :=
  congrArg Prod.fst (push_view v hSeen)

theorem kept_view (v : Vocabulary) (hSeen : seen? (.own line) = some line) : (m.view seen? n).kept v [line] = [line] ↔
    ¬ (LineKind.of v m.current?.isSome line = .closing ∧ m.depth = 0) := by
  rw [Scan.kept_singleton, Scan.refuses, push_view v hSeen]
  by_cases h : LineKind.of v m.current?.isSome line = .closing ∧ m.depth = 0 <;> simp [h]

/-- The run over the own lines. -/
theorem feed_originals (v : Vocabulary) (mixed : List Placed) : Scan.start.feed v (Placed.originals mixed) =
    (after v mixed).view Placed.own? (Placed.originals mixed).length := by
  induction mixed using List.reverseRecOn with
  | nil => rfl
  | append_singleton mixed p ih =>
    rw [Placed.originals_append, Scan.feed_append, ih, after_concat, List.length_append]
    cases p with
    | own line => exact next_view v rfl
    | inserted line =>
      rw [Placed.originals_inserted, Scan.feed_nil]
      exact (view_next_unseen v rfl).symm

/-- All lines, as a view sees them. -/
def seeAll (p : Placed) : Option String := some p.line

variable {suppressed : List String} {mixed : List Placed}

/-- The run over all lines. -/
theorem feed_texts (hInert : ∀ line, .inserted line ∈ mixed → IsInert (.protobuf suppressed) line) :
    Scan.start.feed (.protobuf suppressed) (Placed.texts mixed) =
      (after (.protobuf suppressed) mixed).view seeAll mixed.length := by
  induction mixed using List.reverseRecOn with
  | nil => rfl
  | append_singleton mixed p ih =>
    have hFront := ih fun line hLine => hInert line (List.mem_append_left _ hLine)
    rw [Placed.texts_append, Scan.feed_append, hFront, after_concat, List.length_append]
    cases p with
    | own line => exact next_view _ rfl
    | inserted line =>
      have hLine := hInert line (List.mem_append_right _ (List.mem_singleton_self _))
      exact congrArg Prod.fst (push_view_inserted rfl hLine)

/-- A block is open behind the first line that opens a level. -/
theorem isSome_after (hInert : ∀ line, .inserted line ∈ mixed → IsInert (.protobuf suppressed) line) :
    (after (.protobuf suppressed) mixed).current?.isSome = true ↔
      ∃ p ∈ mixed, ∃ name, Opens (.protobuf suppressed) p.line name := by
  induction mixed using List.reverseRecOn with
  | nil => simp [after, start]
  | append_singleton mixed p ih =>
    have hFront := ih fun line hLine => hInert line (List.mem_append_left _ hLine)
    rw [after_concat]
    simp only [List.mem_append, List.mem_singleton, or_and_right, exists_or, exists_eq_left, ← hFront]
    cases p with
    | own line =>
      rw [next, isSome_step]
      simp only [LineKind.of_eq_opener_iff_behind]
      refine or_congr_right (exists_congr fun name => and_iff_left_of_imp fun hOpens hHeader => ?_)
      exact hOpens.not_isHeader hHeader.2
    | inserted line =>
      have hLine := hInert line (List.mem_append_right _ (List.mem_singleton_self _))
      have hNone : ¬ ∃ name, Opens (.protobuf suppressed) line name := fun h => hLine.neither (.inl h)
      simp [next, change, Placed.line, hNone]

/-- Nothing of the own lines is refused, whatever stands among them. -/
def Keeps (v : Vocabulary) (mixed : List Placed) : Prop :=
  Scan.start.kept v (Placed.originals mixed) = Placed.originals mixed

theorem keeps_own_iff : Keeps v (mixed ++ [.own line]) ↔ Keeps v mixed ∧
    ¬ (LineKind.of v (after v mixed).current?.isSome line = .closing ∧ (after v mixed).depth = 0) := by
  rw [Keeps, Placed.originals_append, Scan.kept_append_eq_iff, feed_originals, Placed.originals_own, kept_view v rfl]
  rfl

theorem keeps_inserted_iff : Keeps v (mixed ++ [.inserted line]) ↔ Keeps v mixed := by
  rw [Keeps, Placed.originals_append, Placed.originals_inserted, List.append_nil]
  rfl

/-- If no own line is refused, no line is. -/
theorem kept_texts (hInert : ∀ line, .inserted line ∈ mixed → IsInert (.protobuf suppressed) line)
    (hKeeps : Keeps (.protobuf suppressed) mixed) :
    Scan.start.kept (.protobuf suppressed) (Placed.texts mixed) = Placed.texts mixed := by
  induction mixed using List.reverseRecOn with
  | nil => rfl
  | append_singleton mixed p ih =>
    have hFront : ∀ line, .inserted line ∈ mixed → IsInert (.protobuf suppressed) line :=
      fun line hLine => hInert line (List.mem_append_left _ hLine)
    rw [Placed.texts_append, Scan.kept_append_eq_iff, feed_texts hFront]
    cases p with
    | own line =>
      obtain ⟨hOwn, hLast⟩ := keeps_own_iff.mp hKeeps
      exact ⟨ih hFront hOwn, (kept_view _ rfl).mpr hLast⟩
    | inserted line =>
      have hLine := hInert line (List.mem_append_right _ (List.mem_singleton_self _))
      refine ⟨ih hFront (keeps_inserted_iff.mp hKeeps), ?_⟩
      rw [Placed.texts, List.map_singleton, Scan.kept_singleton, Scan.refuses, Placed.line,
        push_view_inserted rfl hLine]
      rfl

/-- The lines in blocks are those from the first opening on, but for announced ids. -/
theorem lines_after (hInert : ∀ line, .inserted line ∈ mixed → IsInert (.protobuf suppressed) line)
    (hKeeps : Keeps (.protobuf suppressed) mixed) : (after (.protobuf suppressed) mixed).lines =
      (Placed.behindOpening (.protobuf suppressed) mixed).filter fun p => ¬ Announces (.protobuf suppressed) p.line := by
  induction mixed using List.reverseRecOn with
  | nil => rfl
  | append_singleton mixed p ih =>
    have hFront : ∀ line, .inserted line ∈ mixed → IsInert (.protobuf suppressed) line :=
      fun line hLine => hInert line (List.mem_append_left _ hLine)
    have hOpen : (∃ q ∈ mixed ++ [p], ∃ name, Opens (.protobuf suppressed) q.line name) ↔
        (after (.protobuf suppressed) mixed).current?.isSome = true ∨
          ∃ name, Opens (.protobuf suppressed) p.line name := by
      rw [isSome_after hFront]
      simp only [List.mem_append, List.mem_singleton, or_and_right, exists_or, exists_eq_left]
    rw [after_concat, Placed.behindOpening_concat, List.filter_append]
    simp only [hOpen]
    cases p with
    | own line =>
      obtain ⟨hOwn, hLast⟩ := keeps_own_iff.mp hKeeps
      rw [next, lines_step hLast, ih hFront hOwn]
      simp only [LineKind.isTaken_of_iff, Placed.line]
      by_cases hTaken : (after (.protobuf suppressed) mixed).current?.isSome = true ∨
          ∃ name, Opens (.protobuf suppressed) line name
      · by_cases hAnnounces : Announces (.protobuf suppressed) line <;> simp [hTaken, hAnnounces]
      · simp [hTaken]
    | inserted line =>
      have hLine := hInert line (List.mem_append_right _ (List.mem_singleton_self _))
      have hNone : ¬ ∃ name, Opens (.protobuf suppressed) line name := fun h => hLine.neither (.inl h)
      rw [next, lines_change fun s => Sheet.lines_append s _ _, ih hFront (keeps_inserted_iff.mp hKeeps)]
      simp only [Placed.line, or_iff_left hNone]
      by_cases hSome : (after (.protobuf suppressed) mixed).current?.isSome = true
      · simp [hSome, hLine.not_announces]
      · simp [hSome]

end MarkedScan

/-! ## Schemas -/

open Placed

namespace Schema

variable {suppressed : List String} {mixed : List Placed}

/-- The line that is refused stays the one, and counts the lines inserted in front of it. -/
theorem ofLines_texts_eq_error (hInert : ∀ line, .inserted line ∈ mixed → IsInert (.protobuf suppressed) line)
    {failure : Failure} (h : (ofLines (.protobuf suppressed) (originals mixed)).value = .error failure) :
    ∃ before line after, mixed = before ++ .own line :: after ∧
      failure = .unbalanced ((originals before).length + 1) ∧
      (ofLines (.protobuf suppressed) (texts mixed)).value =
        .error (.unbalanced ((originals before).length + 1 + insertions before)) := by
  obtain ⟨_, line, _, hSplit, hKept, hFailure⟩ := Scan.pushAll_eq_error_iff.mp (ofLines_eq_error_iff_pushAll.mp h)
  obtain ⟨before, after, rfl, rfl⟩ := exists_split_of_originals_eq hSplit
  have hFront : ∀ line, .inserted line ∈ before → IsInert (.protobuf suppressed) line :=
    fun line hLine => hInert line (List.mem_append_left _ hLine)
  have hLength := length_originals before
  rw [MarkedScan.feed_originals, MarkedScan.push_view _ rfl] at hFailure
  by_cases hRefused : LineKind.of (.protobuf suppressed)
      (MarkedScan.after (.protobuf suppressed) before).current?.isSome line = .closing ∧
      (MarkedScan.after (.protobuf suppressed) before).depth = 0
  · rw [if_pos hRefused] at hFailure
    refine ⟨before, line, after, rfl, (Option.some.inj hFailure).symm, ?_⟩
    refine ofLines_eq_error_iff_pushAll.mpr (Scan.pushAll_eq_error_iff.mpr ?_)
    refine ⟨texts before, line, texts after, texts_append _ _, MarkedScan.kept_texts hFront hKept, ?_⟩
    rw [MarkedScan.feed_texts hFront, MarkedScan.push_view _ rfl, if_pos hRefused, ← hLength]
    exact congrArg (fun n => some (Failure.unbalanced n)) (by omega)
  · rw [if_neg hRefused] at hFailure
    cases hFailure

/-- The blocks are those of the own lines, with the inserted lines in their bodies. -/
theorem ofLines_texts_eq_ok (hInert : ∀ line, .inserted line ∈ mixed → IsInert (.protobuf suppressed) line)
    {schema : Schema} (h : (ofLines (.protobuf suppressed) (originals mixed)).value = .ok schema) :
    ∃ bodies : List (List Placed),
      (ofLines (.protobuf suppressed) (texts mixed)).value =
        .ok ⟨schema.header, schema.blocks.zipWith (fun b body => { b with body := texts body }) bodies⟩ ∧
      schema.blocks.map Block.body = bodies.map originals ∧
      bodies.flatten = (behindOpening (.protobuf suppressed) mixed).filter
        (fun p => ¬ Announces (.protobuf suppressed) p.line) ∧
      ∀ body ∈ bodies, ∃ opening rest, body = .own opening :: rest := by
  obtain ⟨hKept, rfl⟩ := ofLines_eq_ok_iff.mp h
  have hSeen : ∀ s : Sheet, s.view MarkedScan.seeAll = { s.view own? with body := texts s.lines } := by
    intro s
    rw [Sheet.view, texts, ← List.filterMap_eq_map]
    rfl
  refine ⟨(MarkedScan.after (.protobuf suppressed) mixed).sheets.map Sheet.lines, ?_, ?_, ?_, fun body hBody => ?_⟩
  · refine ofLines_eq_ok_iff.mpr ⟨MarkedScan.kept_texts hInert hKept, ?_⟩
    rw [MarkedScan.feed_originals, MarkedScan.feed_texts hInert, MarkedScan.blocks_view, MarkedScan.blocks_view,
      List.zipWith_map, List.zipWith_self, ← funext hSeen]
    rfl
  · rw [MarkedScan.feed_originals, MarkedScan.blocks_view, List.map_map, List.map_map]
    rfl
  · rw [← MarkedScan.lines_after hInert hKept]
    rfl
  · obtain ⟨s, _, rfl⟩ := List.mem_map.mp hBody
    exact ⟨s.opening, s.rest, rfl⟩

/-- Blank lines and comments that announce nothing, inserted anywhere among the lines of a schema. If the own lines
    make no schema, all lines make none, and the line that is refused is the same, counted with the lines inserted in
    front of it. If they make one, all lines make it too, with the same header and the same blocks but for their bodies.
    These hold all lines from the first opening of a level on, in their order and cut at the same openings, but for
    those that announce command ids; the own ones among them are the bodies before. -/
theorem inserted_lines_are_inert (suppressed : List String) (mixed : List Placed)
    (hInert : ∀ line, .inserted line ∈ mixed → IsInert (.protobuf suppressed) line) :
    (∀ failure, (ofLines (.protobuf suppressed) (originals mixed)).value = .error failure →
      ∃ before line after, mixed = before ++ .own line :: after ∧
        failure = .unbalanced ((originals before).length + 1) ∧
        (ofLines (.protobuf suppressed) (texts mixed)).value =
          .error (.unbalanced ((originals before).length + 1 + insertions before))) ∧
    ∀ schema, (ofLines (.protobuf suppressed) (originals mixed)).value = .ok schema →
      ∃ bodies : List (List Placed),
        (ofLines (.protobuf suppressed) (texts mixed)).value =
          .ok ⟨schema.header, schema.blocks.zipWith (fun b body => { b with body := texts body }) bodies⟩ ∧
        schema.blocks.map Block.body = bodies.map originals ∧
        bodies.flatten = (behindOpening (.protobuf suppressed) mixed).filter
          (fun p => ¬ Announces (.protobuf suppressed) p.line) ∧
        ∀ body ∈ bodies, ∃ opening rest, body = .own opening :: rest :=
  ⟨fun _ h => ofLines_texts_eq_error hInert h, fun _ h => ofLines_texts_eq_ok hInert h⟩

/-- A header line, an announced id and a block, with lines inserted in front of it, in it and behind it. -/
def noted : List Placed :=
  [.inserted "// a remark", .own "syntax = \"proto3\";", .own "// CmdId: 7", .inserted "", .own "message Ping \x7b",
    .inserted "  // CmdId:8", .own "  Leaf leaf = 1;", .own "\x7d", .inserted "//"]

/-- The lines in front of the block are dropped, and a closing too many is refused four lines later than without. -/
theorem noted_lines_are_inert :
    (∀ line, .inserted line ∈ noted ++ [.own "\x7d"] → IsInert (.protobuf []) line) ∧
    (ofLines (.protobuf []) (originals noted)).value =
      .ok ⟨["syntax = \"proto3\";"], [⟨"Ping", 7, ["message Ping \x7b", "  Leaf leaf = 1;", "\x7d"], ["Leaf"], []⟩]⟩ ∧
    (ofLines (.protobuf []) (texts noted)).value =
      .ok ⟨["syntax = \"proto3\";"],
        [⟨"Ping", 7, ["message Ping \x7b", "  // CmdId:8", "  Leaf leaf = 1;", "\x7d", "//"], ["Leaf"], []⟩]⟩ ∧
    (ofLines (.protobuf []) (originals (noted ++ [.own "\x7d"]))).value = .error (.unbalanced 6) ∧
    (ofLines (.protobuf []) (texts (noted ++ [.own "\x7d"]))).value = .error (.unbalanced 10) := by
  have hInert : ∀ line, .inserted line ∈ noted ++ [.own "\x7d"] → IsInert (.protobuf []) line := by
    simp only [noted, List.mem_append, List.mem_cons, reduceCtorEq, Placed.inserted.injEq, List.not_mem_nil, or_false,
      false_or]
    rintro line (rfl | rfl | rfl | rfl) <;> decide
  have hOwn : (ofLines (.protobuf []) (originals noted)).value =
      .ok ⟨["syntax = \"proto3\";"], [⟨"Ping", 7, ["message Ping \x7b", "  Leaf leaf = 1;", "\x7d"], ["Leaf"], []⟩]⟩ := rfl
  have hRefused : (ofLines (.protobuf []) (originals (noted ++ [.own "\x7d"]))).value = .error (.unbalanced 6) := rfl
  obtain ⟨_, hAccepted⟩ := inserted_lines_are_inert [] noted fun line hLine => hInert line (List.mem_append_left _ hLine)
  obtain ⟨hFails, _⟩ := inserted_lines_are_inert [] (noted ++ [.own "\x7d"]) hInert
  refine ⟨hInert, hOwn, ?_, hRefused, ?_⟩
  · obtain ⟨bodies, hAll, hBodies, hLines, _⟩ := hAccepted _ hOwn
    obtain ⟨body, rfl⟩ := List.length_eq_one_iff.mp ((List.length_map originals).symm.trans
      (congrArg List.length hBodies).symm)
    rw [List.flatten_singleton] at hLines
    rw [hAll, hLines]
    rfl
  · obtain ⟨before, line, after, hSplit, hNumber, hAll⟩ := hFails _ hRefused
    rcases List.eq_nil_or_concat after with rfl | ⟨later, last, rfl⟩
    · obtain ⟨rfl, _⟩ := List.append_singleton_inj.mp hSplit
      exact hAll
    · -- the line refused is the last one: there are no more own lines
      rw [List.concat_eq_append, ← List.cons_append, ← List.append_assoc] at hSplit
      obtain ⟨hNoted, _⟩ := List.append_singleton_inj.mp hSplit
      have hFive : (originals noted).length = 5 := rfl
      have hBefore : 6 = (originals before).length + 1 := Failure.unbalanced.inj hNumber
      have hRest : (originals (.own line :: later)).length = (originals later).length + 1 := rfl
      rw [hNoted, originals_append, List.length_append, hRest] at hFive
      omega

end Schema

end Unbundle
