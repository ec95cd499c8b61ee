/-
  Unbundle.Proofs.Schema.Balance — levels opened and closed, and the lines a scan refuses.

  Whether a line is taken for a header line depends on what stands in front of it, and on nothing else but its own
  text (`HeaderBehind`). Lines that open or close a level are counted with that in mind (`openings`, `closings`).

  (1) `tracks_feed`. The depth of a scan is the number of openings less that of the closings it accepted.

  (2) `value_push`. A line is refused only if it closes a level and none is open, and all it does then is to be
  counted.

  (3) `feed_kept`. Refused lines leave no trace: without them the scan ends in the same state.

  (4) `ofLines_eq_error_iff`, `exists_ofLines_eq_ok_iff`. Lines make no schema if closings outnumber openings
  somewhere, and the failure names the first line where they do.
-/

import Unbundle.Proofs.Schema.Run

namespace Unbundle

open Line

variable {v : Vocabulary}

/-! ## Lines behind others -/

namespace Line

/-- Behind these lines a block is open: one of them opens a level and does not look like a header line. -/
def HasBlock (v : Vocabulary) (before : List String) : Prop :=
  ∃ line ∈ before, (∃ name, Opens v line name) ∧ ¬ IsHeader v line

/-- The line is taken for a header line behind others. -/
def HeaderBehind (v : Vocabulary) (before : List String) (line : String) : Prop :=
  IsHeader v line ∧ ¬ HasBlock v before

/-- The line opens a level behind others. -/
def OpensBehind (v : Vocabulary) (before : List String) (line : String) : Prop :=
  (∃ name, Opens v line name) ∧ ¬ HeaderBehind v before line

/-- The line closes a level behind others, or tries to. -/
def ClosesBehind (v : Vocabulary) (before : List String) (line : String) : Prop :=
  Closes line ∧ ¬ HeaderBehind v before line

instance (before : List String) : Decidable (HasBlock v before) :=
  inferInstanceAs (Decidable (∃ line ∈ before, (∃ name, Opens v line name) ∧ ¬ IsHeader v line))

instance (before : List String) (line : String) : Decidable (HeaderBehind v before line) :=
  inferInstanceAs (Decidable (_ ∧ _))

instance (before : List String) (line : String) : Decidable (OpensBehind v before line) :=
  inferInstanceAs (Decidable (_ ∧ _))

instance (before : List String) (line : String) : Decidable (ClosesBehind v before line) :=
  inferInstanceAs (Decidable (_ ∧ _))

theorem hasBlock_concat_iff {before : List String} {line : String} :
    HasBlock v (before ++ [line]) ↔ HasBlock v before ∨ OpensBehind v before line := by
  have hAppend : HasBlock v (before ++ [line]) ↔
      HasBlock v before ∨ ((∃ name, Opens v line name) ∧ ¬ IsHeader v line) := by
    simp only [HasBlock, List.mem_append, List.mem_singleton, or_and_right, exists_or, exists_eq_left]
  rw [hAppend, OpensBehind, HeaderBehind]
  tauto

theorem ClosesBehind.not_opensBehind {before : List String} {line : String} (h : ClosesBehind v before line) :
    ¬ OpensBehind v before line := by
  rintro ⟨⟨name, hOpens⟩, _⟩
  exact hOpens.not_closes h.1

end Line

/-- How many lines have a property that may depend on the lines in front of them. -/
def countBehind (p : List String → String → Prop) [∀ before line, Decidable (p before line)] (lines : List String) :
    Nat :=
  lines.zipIdx.countP fun x => p (lines.take x.2) x.1

/-- How many lines open a level. -/
def openings (v : Vocabulary) (lines : List String) : Nat := countBehind (OpensBehind v) lines

/-- How many lines close a level, or try to. -/
def closings (v : Vocabulary) (lines : List String) : Nat := countBehind (ClosesBehind v) lines

section
variable (p : List String → String → Prop) [∀ before line, Decidable (p before line)]

theorem countBehind_concat (lines : List String) (line : String) :
    countBehind p (lines ++ [line]) = countBehind p lines + if p lines line then 1 else 0 := by
  have hFront : lines.zipIdx.countP (fun x => p ((lines ++ [line]).take x.2) x.1) =
      lines.zipIdx.countP fun x => p (lines.take x.2) x.1 := by
    refine List.countP_congr fun x hx => ?_
    have hLt : x.2 < lines.length := by
      have := List.snd_lt_of_mem_zipIdx hx
      omega
    rw [List.take_append_of_le_length (by omega)]
  unfold countBehind
  rw [List.zipIdx_append, List.countP_append, hFront]
  simp [List.countP_singleton]

end

/-! ## One line -/

namespace LineKind

theorem of_eq_closing_iff_behind {inBlock : Bool} {line : String} :
    of v inBlock line = .closing ↔ Closes line ∧ ¬ (inBlock = false ∧ IsHeader v line) := by
  by_cases h : inBlock = false ∧ IsHeader v line
  · rw [of_eq_header_iff.mpr h]
    simp [h]
  · simp [of_behind h, of_eq_closing_iff, h]

theorem of_eq_opener_iff_behind {inBlock : Bool} {line name : String} :
    of v inBlock line = .opener name ↔ Opens v line name ∧ ¬ (inBlock = false ∧ IsHeader v line) := by
  by_cases h : inBlock = false ∧ IsHeader v line
  · rw [of_eq_header_iff.mpr h]
    simp [h]
  · simp [of_behind h, of_eq_opener_iff, h]

end LineKind

namespace Scan

/-- What a line changes in the numbers of a scan, refused or not. -/
theorem next_counts (s : Scan) (line : String) :
    (s.next v line).lineNumber = s.lineNumber + 1 ∧
    ((s.next v line).current?.isSome = true ↔
      s.current?.isSome = true ∨ ∃ name, LineKind.of v s.current?.isSome line = .opener name) ∧
    (s.next v line).depth = match LineKind.of v s.current?.isSome line with
      | .opener _ => s.depth + 1
      | .closing => s.depth - 1
      | _ => s.depth := by
  unfold next push
  rw [value_step]
  cases LineKind.of v s.current?.isSome line with
  | opener name => by_cases h : s.current?.isSome ∧ 0 < s.depth <;> simp [h, openNested, openBlock, change]
  | closing => by_cases h : s.depth = 0 <;> simp [h, change]
  | header => simp
  | commandId id => simp
  | nameless => simp [change]
  | plain reference? => simp [change]

/-- The line closes a level, and the scan of the lines in front of it does not refuse it. -/
def ClosingAccepted (v : Vocabulary) (before : List String) (line : String) : Prop :=
  ClosesBehind v before line ∧ (start.feed v before).refuses v line = false

instance (before : List String) (line : String) : Decidable (ClosingAccepted v before line) :=
  inferInstanceAs (Decidable (_ ∧ _))

/-- How many lines close a level and are not refused. -/
def accepted (v : Vocabulary) (lines : List String) : Nat := countBehind (ClosingAccepted v) lines

/-- What the lines fed to a scan say about it. -/
structure Tracks (v : Vocabulary) (s : Scan) (lines : List String) : Prop where
  lineNumber : s.lineNumber = lines.length
  inBlock : s.current?.isSome = true ↔ HasBlock v lines
  depth : s.depth + accepted v lines = openings v lines

namespace Tracks

variable {s : Scan} {lines : List String}

theorem header_iff (h : Tracks v s lines) (line : String) :
    (s.current?.isSome = false ∧ IsHeader v line) ↔ HeaderBehind v lines line := by
  rw [HeaderBehind, ← h.inBlock, Bool.not_eq_true, and_comm]

theorem opener_iff (h : Tracks v s lines) (line : String) :
    (∃ name, LineKind.of v s.current?.isSome line = .opener name) ↔ OpensBehind v lines line := by
  simp only [LineKind.of_eq_opener_iff_behind, h.header_iff, OpensBehind, exists_and_right]

theorem closing_iff (h : Tracks v s lines) (line : String) :
    LineKind.of v s.current?.isSome line = .closing ↔ ClosesBehind v lines line := by
  rw [LineKind.of_eq_closing_iff_behind, h.header_iff, ClosesBehind]

/-- A line is refused if it closes a level and none is open, and then it is only counted. -/
theorem value_push (h : Tracks v s lines) (line : String) : (s.push v line).value =
    if ClosesBehind v lines line ∧ s.depth = 0 then
      ({ s with lineNumber := lines.length + 1 }, some (.unbalanced (lines.length + 1)))
    else (s.next v line, none) := by
  simp only [← h.closing_iff, ← h.lineNumber]
  unfold next push
  rw [value_step]
  cases LineKind.of v s.current?.isSome line with
  | closing => by_cases hDepth : s.depth = 0 <;> simp [hDepth]
  | header | commandId | opener | nameless | plain => simp

theorem refuses_iff (h : Tracks v s lines) (line : String) :
    s.refuses v line = true ↔ ClosesBehind v lines line ∧ s.depth = 0 := by
  unfold refuses
  rw [h.value_push]
  split <;> simp_all

/-- An opening leaves one more level open. A closing leaves one less, unless none is open. -/
theorem depth_next (h : Tracks v s lines) (line : String) : (s.next v line).depth =
    s.depth + (if OpensBehind v lines line then 1 else 0) - if ClosesBehind v lines line then 1 else 0 := by
  have hOpener := h.opener_iff line
  have hClosing := h.closing_iff line
  rw [(next_counts s line).2.2]
  cases hk : LineKind.of v s.current?.isSome line with
  | opener | closing | header | commandId | nameless | plain => simp [← hOpener, ← hClosing, hk]

end Tracks

theorem tracks_start : Tracks v start [] :=
  ⟨rfl, by simp [start, HasBlock], rfl⟩

theorem tracks_next {lines : List String} (h : Tracks v (start.feed v lines) lines) (line : String) :
    Tracks v ((start.feed v lines).next v line) (lines ++ [line]) := by
  obtain ⟨hNumber, hBlock, _⟩ := next_counts (v := v) (start.feed v lines) line
  refine ⟨?_, ?_, ?_⟩
  · rw [hNumber, h.lineNumber, List.length_append, List.length_singleton]
  · rw [hBlock, h.inBlock, h.opener_iff, hasBlock_concat_iff]
  · have hAccepted : ClosingAccepted v lines line ↔ ClosesBehind v lines line ∧ 0 < (start.feed v lines).depth := by
      rw [ClosingAccepted, ← Bool.not_eq_true, h.refuses_iff, Nat.pos_iff_ne_zero]
      tauto
    have hExclusive : ClosesBehind v lines line → ¬ OpensBehind v lines line := ClosesBehind.not_opensBehind
    have hDepth := h.depth
    unfold accepted openings at hDepth ⊢
    rw [countBehind_concat, countBehind_concat, h.depth_next]
    simp only [hAccepted]
    by_cases hCloses : ClosesBehind v lines line
    · rw [if_neg (hExclusive hCloses), if_pos hCloses]
      by_cases hZero : (start.feed v lines).depth = 0
      · rw [if_neg fun hLine => absurd hLine.2 (by omega)]
        omega
      · rw [if_pos ⟨hCloses, Nat.pos_of_ne_zero hZero⟩]
        omega
    · have hNone : ¬ (ClosesBehind v lines line ∧ 0 < (start.feed v lines).depth) := fun hLine => hCloses hLine.1
      rw [if_neg hCloses, if_neg hNone]
      omega

theorem tracks_feed (lines : List String) : Tracks v (start.feed v lines) lines := by
  induction lines using List.reverseRecOn with
  | nil => exact tracks_start
  | append_singleton lines line ih =>
    rw [feed_append]
    exact tracks_next ih line

/-! ## Refused lines leave no trace -/

/-- The scan with its lines counted from another number. -/
def renumber (s : Scan) (n : Nat) : Scan := { s with lineNumber := n }

@[simp] theorem renumber_renumber (s : Scan) (n m : Nat) : (s.renumber n).renumber m = s.renumber m := rfl

/-- The number of lines seen counts for nothing but itself, and the failure that names it. -/
theorem push_renumber (s : Scan) (n : Nat) (line : String) :
    (s.renumber n).next v line = (s.next v line).renumber (n + 1) ∧
      (s.renumber n).refuses v line = s.refuses v line := by
  unfold next refuses push
  have hBlock : (s.renumber n).current? = s.current? := rfl
  rw [hBlock, value_step, value_step]
  cases LineKind.of v s.current?.isSome line with
  | opener name =>
    by_cases h : s.current?.isSome ∧ 0 < s.depth <;> simp [h, renumber, openNested, openBlock, change, blocks]
  | closing => by_cases h : s.depth = 0 <;> simp [h, renumber, change]
  | header | commandId | nameless | plain => simp [renumber, change]

theorem feed_renumber (s : Scan) (n : Nat) (lines : List String) :
    (s.renumber n).feed v lines = (s.feed v lines).renumber (n + lines.length) ∧
      (s.renumber n).kept v lines = s.kept v lines := by
  induction lines generalizing s n with
  | nil => exact ⟨rfl, rfl⟩
  | cons line lines ih =>
    obtain ⟨hNext, hRefuses⟩ := push_renumber (v := v) s n line
    obtain ⟨hFeed, hKept⟩ := ih (s.next v line) (n + 1)
    rw [feed_cons, feed_cons, kept, kept, hNext, hRefuses, hFeed, hKept]
    refine ⟨?_, rfl⟩
    rw [List.length_cons, Nat.add_assoc, Nat.add_comm 1]

theorem next_of_refuses {s : Scan} {line : String} (h : s.refuses v line = true) :
    s.next v line = s.renumber (s.lineNumber + 1) := by
  unfold refuses next push at *
  rw [value_step] at h ⊢
  cases hk : LineKind.of v s.current?.isSome line with
  | closing => by_cases hDepth : s.depth = 0 <;> simp_all [renumber]
  | header | commandId | opener | nameless | plain => simp [hk] at h

/-- Without the lines it refuses, a scan comes to the same end; only fewer lines were seen. -/
theorem feed_kept (s : Scan) (lines : List String) :
    s.feed v (s.kept v lines) = (s.feed v lines).renumber (s.lineNumber + (s.kept v lines).length) := by
  induction lines generalizing s with
  | nil => rfl
  | cons line lines ih =>
    rw [kept, feed_cons]
    split
    · rename_i hRefused
      obtain ⟨hFeed, hKept⟩ := feed_renumber (v := v) s (s.lineNumber + 1) lines
      rw [next_of_refuses hRefused, hFeed, hKept, ih, renumber_renumber]
    · obtain ⟨hNumber, _⟩ := next_counts (v := v) s line
      rw [feed_cons, ih, hNumber, List.length_cons, Nat.add_assoc, Nat.add_comm 1]

/-! ## The first line refused -/

/-- Nothing is refused if neither the first line is nor any of the rest. -/
theorem kept_cons_eq_iff {s : Scan} {line : String} {lines : List String} :
    s.kept v (line :: lines) = line :: lines ↔ s.refuses v line = false ∧ (s.next v line).kept v lines = lines := by
  rw [kept]
  cases s.refuses v line with
  | false => simp
  | true =>
    simp only [if_true, Bool.true_eq_false, false_and, iff_false]
    intro hKept
    have hLength := (kept_sublist (v := v) (s.next v line) lines).length_le
    rw [hKept, List.length_cons] at hLength
    omega

/-- A run that ends at the first refused line fails if there is one, with the failure of that line. -/
theorem pushAll_eq_error_iff {s : Scan} {lines : List String} {failure : Failure} :
    (s.pushAll v lines).value = .error failure ↔ ∃ before line after, lines = before ++ line :: after ∧
      s.kept v before = before ∧ ((s.feed v before).push v line).value.2 = some failure := by
  induction lines generalizing s with
  | nil => simp [pushAll]
  | cons line lines ih =>
    rw [pushAll, Logged.value_bind]
    rcases hPush : (s.push v line).value with ⟨t, _ | failure'⟩
    · have hNext : s.next v line = t := by rw [next, hPush]
      have hKeeps : s.refuses v line = false := by rw [refuses, hPush]; rfl
      constructor
      · intro h
        obtain ⟨before, l, after, rfl, hKept, hFailure⟩ := ih.mp h
        rw [← hNext] at hKept hFailure
        exact ⟨line :: before, l, after, rfl, kept_cons_eq_iff.mpr ⟨hKeeps, hKept⟩, hFailure⟩
      · rintro ⟨before, l, after, hSplit, hKept, hFailure⟩
        cases before with
        | nil =>
          obtain ⟨rfl, rfl⟩ := List.cons.inj hSplit
          rw [feed_nil, hPush] at hFailure
          cases hFailure
        | cons first before =>
          obtain ⟨rfl, rfl⟩ := List.cons.inj hSplit
          rw [feed_cons, hNext] at hFailure
          exact ih.mpr ⟨before, l, after, rfl, hNext ▸ (kept_cons_eq_iff.mp hKept).2, hFailure⟩
    · have hRefuses : s.refuses v line = true := by rw [refuses, hPush]; rfl
      constructor
      · intro h
        cases h
        exact ⟨[], line, lines, rfl, rfl, by rw [feed_nil, hPush]⟩
      · rintro ⟨before, l, after, hSplit, hKept, hFailure⟩
        cases before with
        | nil =>
          obtain ⟨rfl, rfl⟩ := List.cons.inj hSplit
          rw [feed_nil, hPush] at hFailure
          cases hFailure
          rfl
        | cons first before =>
          -- the first line is refused, so it is not kept
          obtain ⟨rfl, rfl⟩ := List.cons.inj hSplit
          rw [(kept_cons_eq_iff.mp hKept).1] at hRefuses
          cases hRefuses

/-- Nothing of lines written one behind the other is refused if nothing of either part is. -/
theorem kept_append_eq_iff {s : Scan} {lines more : List String} : s.kept v (lines ++ more) = lines ++ more ↔
    s.kept v lines = lines ∧ (s.feed v lines).kept v more = more := by
  rw [kept_append]
  constructor
  · intro h
    have hLines := (kept_sublist (v := v) s lines).length_le
    have hMore := (kept_sublist (v := v) (s.feed v lines) more).length_le
    have hLength := congrArg List.length h
    simp only [List.length_append] at hLength
    exact List.append_inj h (by omega)
  · rintro ⟨hLines, hMore⟩
    rw [hLines, hMore]

/-- Where no line is refused, every closing is accepted. -/
theorem accepted_eq_closings {lines : List String} (h : start.kept v lines = lines) :
    accepted v lines = closings v lines := by
  induction lines using List.reverseRecOn with
  | nil => rfl
  | append_singleton lines line ih =>
    obtain ⟨hLines, hLine⟩ := kept_append_eq_iff.mp h
    have hKeeps : (start.feed v lines).refuses v line = false := by
      by_contra hRefused
      simp [kept_singleton, hRefused] at hLine
    have hLast : ClosingAccepted v lines line ↔ ClosesBehind v lines line := by simp [ClosingAccepted, hKeeps]
    have hFront := ih hLines
    unfold accepted closings at hFront ⊢
    rw [countBehind_concat, countBehind_concat, hFront]
    simp only [hLast]

/-- Where no line is refused, the depth is what the openings leave of the closings. -/
theorem depth_add_closings {lines : List String} (h : start.kept v lines = lines) :
    (start.feed v lines).depth + closings v lines = openings v lines := by
  rw [← accepted_eq_closings h]
  exact (tracks_feed lines).depth

end Scan

namespace Line

/-- More levels are closed than opened. -/
def Overclosed (v : Vocabulary) (lines : List String) : Prop := openings v lines < closings v lines

/-- The line at which closings first outnumber openings. -/
def FirstOverclosed (v : Vocabulary) (lines : List String) (n : Nat) : Prop :=
  Overclosed v (lines.take n) ∧ ∀ m < n, ¬ Overclosed v (lines.take m)

theorem FirstOverclosed.unique {lines : List String} {n m : Nat} (h : FirstOverclosed v lines n)
    (h' : FirstOverclosed v lines m) : n = m := by
  rcases Nat.lt_trichotomy n m with hLt | hEq | hLt
  · exact absurd h.1 (h'.2 n hLt)
  · exact hEq
  · exact absurd h'.1 (h.2 m hLt)

end Line

namespace Schema

theorem not_overclosed_of_kept {lines : List String} (h : Scan.start.kept v lines = lines) (n : Nat) :
    ¬ Overclosed v (lines.take n) := by
  rw [← List.take_append_drop n lines] at h
  have hDepth := Scan.depth_add_closings (Scan.kept_append_eq_iff.mp h).1
  unfold Overclosed
  omega

/-- The first line refused is the first at which closings outnumber openings. -/
theorem firstOverclosed_of_refused {before : List String} {line : String} {failure : Failure}
    (hKept : Scan.start.kept v before = before)
    (hFailure : ((Scan.start.feed v before).push v line).value.2 = some failure) (after : List String) :
    failure = .unbalanced (before.length + 1) ∧ FirstOverclosed v (before ++ line :: after) (before.length + 1) := by
  have hTracks := Scan.tracks_feed (v := v) before
  have hDepth := Scan.depth_add_closings hKept
  rw [hTracks.value_push] at hFailure
  split at hFailure
  · rename_i h
    obtain ⟨hCloses, hZero⟩ := h
    refine ⟨(Option.some.inj hFailure).symm, ?_, ?_⟩
    · have hTake : (before ++ line :: after).take (before.length + 1) = before ++ [line] := by
        simp [List.take_append, List.take_of_length_le]
      have hOpen : ¬ OpensBehind v before line := hCloses.not_opensBehind
      rw [hTake]
      unfold Overclosed openings closings at *
      rw [countBehind_concat, countBehind_concat, if_neg hOpen, if_pos hCloses]
      omega
    · intro n hn
      have hTake : (before ++ line :: after).take n = before.take n :=
        List.take_append_of_le_length (by omega)
      rw [hTake]
      exact not_overclosed_of_kept hKept n
  · cases hFailure

theorem ofLines_eq_error_iff_pushAll {lines : List String} {failure : Failure} :
    (ofLines v lines).value = .error failure ↔ (Scan.start.pushAll v lines).value = .error failure := by
  rw [value_ofLines]
  rcases (Scan.start.pushAll v lines).value with failure' | s
  · simp [Except.map]
  · simp [Except.map]

/-- Lines make no schema if somewhere closings outnumber openings; the failure names the first line where they do. -/
theorem ofLines_eq_error_iff {lines : List String} {failure : Failure} : (ofLines v lines).value = .error failure ↔
    ∃ n, failure = .unbalanced n ∧ FirstOverclosed v lines n := by
  rw [ofLines_eq_error_iff_pushAll]
  constructor
  · intro h
    obtain ⟨before, line, after, rfl, hKept, hFailure⟩ := Scan.pushAll_eq_error_iff.mp h
    exact ⟨_, firstOverclosed_of_refused hKept hFailure after⟩
  · rintro ⟨n, rfl, hFirst⟩
    rcases hRun : (Scan.start.pushAll v lines).value with failure' | s
    · obtain ⟨before, line, after, rfl, hKept, hFailure⟩ := Scan.pushAll_eq_error_iff.mp hRun
      obtain ⟨rfl, hFirst'⟩ := firstOverclosed_of_refused hKept hFailure after
      rw [hFirst.unique hFirst']
    · exact absurd hFirst.1 (not_overclosed_of_kept (Scan.pushAll_eq_ok_iff.mp hRun).1 n)

/-- Lines make a schema if nowhere closings outnumber openings. -/
theorem exists_ofLines_eq_ok_iff {lines : List String} : (∃ schema, (ofLines v lines).value = .ok schema) ↔
    ∀ n, ¬ Overclosed v (lines.take n) := by
  constructor
  · rintro ⟨schema, h⟩
    exact not_overclosed_of_kept (ofLines_eq_ok_iff.mp h).1
  · intro h
    rcases hRun : (ofLines v lines).value with failure | schema
    · obtain ⟨n, _, hFirst⟩ := ofLines_eq_error_iff.mp hRun
      exact absurd hFirst.1 (h n)
    · exact ⟨schema, rfl⟩

end Schema

/-- Balance and rejection, over every run of lines: the depth counts openings less accepted closings; only a closing
    with nothing open is refused, and it changes the number of lines seen alone; refused lines leave no trace; and a
    text makes no schema if closings outnumber openings somewhere, for the first line where they do. -/
theorem scan_balance (v : Vocabulary) :
    (∀ lines, ((Scan.start.feed v lines).current?.isSome = true ↔ HasBlock v lines) ∧
      (Scan.start.feed v lines).depth + Scan.accepted v lines = openings v lines) ∧
    (∀ lines line, ((Scan.start.feed v lines).push v line).value =
      if ClosesBehind v lines line ∧ (Scan.start.feed v lines).depth = 0 then
        ({ Scan.start.feed v lines with lineNumber := lines.length + 1 }, some (.unbalanced (lines.length + 1)))
      else (Scan.start.feed v (lines ++ [line]), none)) ∧
    (∀ lines, Scan.start.feed v (Scan.start.kept v lines) =
      { Scan.start.feed v lines with lineNumber := (Scan.start.kept v lines).length }) ∧
    ∀ text,
      (∀ n, (Schema.ofText v text).value = .error (.unbalanced n) ↔ FirstOverclosed v (Text.lines text) n) ∧
      ((∃ schema, (Schema.ofText v text).value = .ok schema) ↔ ∀ n, ¬ Overclosed v ((Text.lines text).take n)) := by
  refine ⟨fun lines => ?_, fun lines line => ?_, fun lines => ?_,
    fun text => ⟨fun n => ?_, Schema.exists_ofLines_eq_ok_iff⟩⟩
  · have hTracks := Scan.tracks_feed (v := v) lines
    exact ⟨hTracks.inBlock, hTracks.depth⟩
  · rw [(Scan.tracks_feed lines).value_push, Scan.feed_append]
    rfl
  · rw [Scan.feed_kept]
    simp [Scan.renumber, Scan.start]
  · rw [Schema.ofText, Schema.ofLines_eq_error_iff]
    simp

end Unbundle
