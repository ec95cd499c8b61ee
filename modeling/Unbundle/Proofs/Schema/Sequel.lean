/-
  Unbundle.Proofs.Schema.Sequel — a schema behind another one.

  Once every level is closed and every announced id is taken, a scan is about to open its next block as if it had just
  begun. What it holds by then stays in front of what follows, and the numbers of lines count on.

  - `pending_eq_zero`: announced ids that were taken leave nothing for the next block.
  - `push_behind`, `pushAll_behind`: one line, and a run of lines, behind what was scanned before.
  - `pushAll_append`: a run of lines goes on where the first part of it ended.
  - `sequel_stands_alone`: a schema that starts with a block makes the same blocks, or fails at the same line, with
    another schema in front of it.
-/

import Unbundle.Proofs.Schema.CommandId

namespace Unbundle

open Line

variable {v : Vocabulary}

namespace Line

/-- The line opens a block behind others: it opens a level, and none is open. -/
def OpensBlock (v : Vocabulary) (before : List String) (line : String) : Prop :=
  OpensBehind v before line ∧ (Scan.start.feed v before).depth = 0

instance (before : List String) (line : String) : Decidable (OpensBlock v before line) :=
  inferInstanceAs (Decidable (_ ∧ _))

/-- Behind every line that announces a command id a block is opened. -/
def IdsTaken (v : Vocabulary) (lines : List String) : Prop :=
  ∀ before line after, lines = before ++ line :: after → Announces v line →
    ∃ between opening later, after = between ++ opening :: later ∧ OpensBlock v (before ++ line :: between) opening

theorem IdsTaken.nil : IdsTaken v [] := by
  intro before line after h
  exact absurd h.symm (List.append_ne_nil_of_right_ne_nil before (List.cons_ne_nil line after))

/-- A block takes whatever id was announced, and any other line must leave no id behind. -/
theorem idsTaken_concat_iff {lines : List String} {line : String} :
    IdsTaken v (lines ++ [line]) ↔ OpensBlock v lines line ∨ IdsTaken v lines ∧ ¬ Announces v line := by
  constructor
  · intro h
    by_cases hBlock : OpensBlock v lines line
    · exact .inl hBlock
    refine .inr ⟨fun before announcing after hLines hAnnounces => ?_, fun hAnnounces => ?_⟩
    · obtain ⟨between, opening, later, hAfter, hOpens⟩ :=
        h before announcing (after ++ [line]) (by rw [hLines, List.append_assoc, List.cons_append]) hAnnounces
      rcases List.eq_nil_or_concat later with rfl | ⟨later, last, rfl⟩
      · obtain ⟨rfl, rfl⟩ := List.append_singleton_inj.mp hAfter
        rw [← hLines] at hOpens
        exact absurd hOpens hBlock
      · rw [List.concat_eq_append, ← List.cons_append, ← List.append_assoc] at hAfter
        obtain ⟨rfl, rfl⟩ := List.append_singleton_inj.mp hAfter
        exact ⟨between, opening, later, rfl, hOpens⟩
    · obtain ⟨between, opening, later, hAfter, _⟩ := h lines line [] rfl hAnnounces
      exact List.append_ne_nil_of_right_ne_nil between (List.cons_ne_nil opening later) hAfter.symm
  · intro h before announcing after hLines hAnnounces
    rcases List.eq_nil_or_concat after with rfl | ⟨after, last, rfl⟩
    · obtain ⟨rfl, rfl⟩ := List.append_singleton_inj.mp hLines
      rcases h with ⟨⟨⟨_, hOpens⟩, _⟩, _⟩ | ⟨_, hLine⟩
      · exact absurd hAnnounces hOpens.1
      · exact absurd hAnnounces hLine
    · rw [List.concat_eq_append, ← List.cons_append, ← List.append_assoc] at hLines
      obtain ⟨rfl, rfl⟩ := List.append_singleton_inj.mp hLines
      rw [List.concat_eq_append]
      rcases h with hBlock | ⟨hTaken, _⟩
      · exact ⟨after, line, [], rfl, hBlock⟩
      · obtain ⟨between, opening, later, rfl, hOpens⟩ := hTaken before announcing after rfl hAnnounces
        exact ⟨between, opening, later ++ [line], by simp, hOpens⟩

end Line

namespace Scan

/-! ## Nothing is left over -/

theorem pending_eq_zero {lines : List String} (h : IdsTaken v lines) : (start.feed v lines).pending = 0 := by
  induction lines using List.reverseRecOn with
  | nil => rfl
  | append_singleton lines line ih =>
    rw [feed_append, feed_cons, feed_nil, pending_next]
    rcases idsTaken_concat_iff.mp h with ⟨hOpens, hDepth⟩ | ⟨hTaken, hLine⟩
    · obtain ⟨name, hOpener⟩ := ((tracks_feed lines).opener_iff line).mpr hOpens
      rw [hOpener]
      exact if_neg fun hNested => absurd hDepth (by omega)
    · have hPending := ih hTaken
      cases hk : LineKind.of v (start.feed v lines).current?.isSome line with
      | commandId id =>
        have hBehind : ¬ ((start.feed v lines).current?.isSome = false ∧ IsHeader v line) := by
          intro hHeader
          cases hk.symm.trans (LineKind.of_eq_header_iff.mpr hHeader)
        rw [LineKind.of_behind hBehind] at hk
        exact absurd (LineKind.of_eq_commandId_iff.mp ⟨id, hk⟩) hLine
      | opener name =>
        simp only [hPending]
        split <;> rfl
      | header | nameless | closing | plain => exact hPending

/-! ## Behind another scan -/

/-- The scan `s` as it is if what `t` has seen comes first. -/
def behind (t s : Scan) : Scan :=
  { s with lineNumber := t.lineNumber + s.lineNumber, header := t.header, earlier := t.blocks ++ s.earlier }

end Scan

/-- The failure with its lines counted behind `n` others. -/
def Failure.behind (n : Nat) : Failure → Failure
  | .unbalanced line => .unbalanced (n + line)
  | failure => failure

namespace Scan

variable {s t : Scan}

/-- Inside a block a line does what it does alone. -/
theorem push_behind (h : s.current?.isSome = true) (line : String) : ((t.behind s).push v line).value =
    (t.behind (s.next v line), (s.push v line).value.2.map (Failure.behind t.lineNumber)) := by
  unfold next push
  have hCurrent : (t.behind s).current? = s.current? := rfl
  rw [hCurrent, h, value_step, value_step]
  cases hk : LineKind.of v true line with
  | header => exact absurd hk LineKind.of_true_ne_header
  | opener name =>
    by_cases hNested : s.current?.isSome ∧ 0 < s.depth <;>
      simp [hNested, behind, openNested, openBlock, change, blocks, Nat.add_assoc]
  | closing => by_cases hDepth : s.depth = 0 <;> simp [hDepth, behind, change, Failure.behind, Nat.add_assoc]
  | commandId | nameless | plain => simp [behind, change, Nat.add_assoc]

theorem isSome_next (h : s.current?.isSome = true) (line : String) : (s.next v line).current?.isSome = true :=
  (next_counts s line).2.1.mpr (.inl h)

theorem pushAll_behind (h : s.current?.isSome = true) (lines : List String) : ((t.behind s).pushAll v lines).value =
    ((s.pushAll v lines).value.map t.behind).mapError (Failure.behind t.lineNumber) := by
  induction lines generalizing s with
  | nil => rfl
  | cons line lines ih =>
    rw [pushAll, pushAll, Logged.value_bind, Logged.value_bind, push_behind h]
    have hNext : s.next v line = (s.push v line).value.1 := rfl
    rcases hPush : (s.push v line).value with ⟨s', _ | failure⟩
    · rw [hPush] at hNext
      rw [hNext]
      exact ih (hNext ▸ isSome_next h line)
    · rfl

theorem pushAll_append (s : Scan) (lines more : List String) : (s.pushAll v (lines ++ more)).value =
    (s.pushAll v lines).value.bind fun t => (t.pushAll v more).value := by
  induction lines generalizing s with
  | nil => rfl
  | cons line lines ih =>
    rw [List.cons_append, pushAll, pushAll, Logged.value_bind, Logged.value_bind]
    rcases (s.push v line).value with ⟨s', _ | failure⟩
    · exact ih s'
    · rfl

theorem pushAll_cons_of_kept {line : String} (h : s.refuses v line = false) (rest : List String) :
    (s.pushAll v (line :: rest)).value = ((s.next v line).pushAll v rest).value := by
  rw [pushAll, Logged.value_bind]
  unfold refuses at h
  unfold next
  rcases hPush : (s.push v line).value with ⟨s', _ | failure⟩
  · rfl
  · rw [hPush] at h
    cases h

/-- With nothing left over, a block opens as it opens a schema. -/
theorem next_opening {opening name : String} (hDepth : t.depth = 0) (hPending : t.pending = 0)
    (hHeader : ¬ IsHeader v opening) (hOpens : Opens v opening name) :
    t.refuses v opening = false ∧ t.next v opening = t.behind (start.next v opening) := by
  obtain ⟨hKept, hNext⟩ := next_open (s := t) (.inr hHeader) (.inr hDepth) hOpens
  obtain ⟨_, hFirst⟩ := next_open (s := start) (.inr hHeader) (.inl rfl) hOpens
  refine ⟨hKept, ?_⟩
  rw [hNext, hFirst]
  simp [behind, openBlock, blocks, hDepth, hPending, start]

end Scan

/-! ## A schema behind another one -/

namespace Schema

/-- Lines that start with a block, behind lines that leave no level open and no id to take. -/
theorem value_ofLines_append {lines rest : List String} {opening : String} {first : Schema}
    (hFirst : (ofLines v lines).value = .ok first) (hDepth : (Scan.start.feed v lines).depth = 0)
    (hIds : IdsTaken v lines) (hOpens : OpensBlock v [] opening) :
    (ofLines v (lines ++ opening :: rest)).value =
      ((ofLines v (opening :: rest)).value.map fun second => ⟨first.header, first.blocks ++ second.blocks⟩).mapError
        (Failure.behind lines.length) := by
  obtain ⟨⟨⟨name, hName⟩, hBehind⟩, _⟩ := hOpens
  have hHeader : ¬ IsHeader v opening := fun h => hBehind ⟨h, fun ⟨_, hLine, _⟩ => absurd hLine List.not_mem_nil⟩
  obtain ⟨hAccepted, rfl⟩ := ofLines_eq_ok_iff.mp hFirst
  have hRun : (Scan.start.pushAll v lines).value = .ok (Scan.start.feed v lines) :=
    Scan.pushAll_eq_ok_iff.mpr ⟨hAccepted, rfl⟩
  have hNumber : (Scan.start.feed v lines).lineNumber = lines.length := (Scan.tracks_feed lines).lineNumber
  obtain ⟨hKept, hNext⟩ := Scan.next_opening hDepth (Scan.pending_eq_zero hIds) hHeader hName
  obtain ⟨hAlone, hOpen⟩ := Scan.next_open (s := .start) (.inr hHeader) (.inl rfl) hName
  have hInBlock : (Scan.start.next v opening).current?.isSome = true := by rw [hOpen]; rfl
  rw [value_ofLines, value_ofLines, Scan.pushAll_append, hRun, Except.bind, Scan.pushAll_cons_of_kept hKept,
    Scan.pushAll_cons_of_kept hAlone, hNext, Scan.pushAll_behind hInBlock, hNumber]
  rcases ((Scan.start.next v opening).pushAll v rest).value with failure | s
  · rfl
  · simp [Except.map, Except.mapError, Scan.behind, Scan.blocks]

/-- Lines that start with a block make the same blocks behind another schema as they make alone, if that schema leaves
    no level open and no id to take. They fail behind it only if they fail alone, and at the same one of them. -/
theorem sequel_stands_alone {lines rest : List String} {opening : String} {first : Schema}
    (hFirst : (ofLines v lines).value = .ok first) (hDepth : (Scan.start.feed v lines).depth = 0)
    (hIds : IdsTaken v lines) (hOpens : OpensBlock v [] opening) :
    ((∃ both, (ofLines v (lines ++ opening :: rest)).value = .ok both) ↔
      ∃ second, (ofLines v (opening :: rest)).value = .ok second) ∧
    (∀ second, (ofLines v (opening :: rest)).value = .ok second →
      (ofLines v (lines ++ opening :: rest)).value = .ok ⟨first.header, first.blocks ++ second.blocks⟩) ∧
    ∀ n, (ofLines v (opening :: rest)).value = .error (.unbalanced n) ↔
      (ofLines v (lines ++ opening :: rest)).value = .error (.unbalanced (lines.length + n)) := by
  rw [value_ofLines_append hFirst hDepth hIds hOpens]
  rcases (ofLines v (opening :: rest)).value with failure | second
  · refine ⟨by simp [Except.map, Except.mapError], by simp, fun n => ?_⟩
    cases failure with
    | unbalanced k => simp [Except.map, Except.mapError, Failure.behind]
    | _ => simp [Except.map, Except.mapError, Failure.behind]
  · simp [Except.map, Except.mapError]

end Schema

namespace Vocabulary

/-- A header line and a block with a command id. -/
def pingLines : List String := ["syntax = \"proto3\";", "// CmdId: 7", "message Ping \x7b", "\x7d"]

theorem idsTaken_pingLines : IdsTaken (standard defaultSuppressed defaultMarker) pingLines := by
  have hOpened : IdsTaken (standard defaultSuppressed defaultMarker)
      (["syntax = \"proto3\";", "// CmdId: 7"] ++ ["message Ping \x7b"]) := idsTaken_concat_iff.mpr (.inl (by decide))
  exact idsTaken_concat_iff.mpr (.inr ⟨hOpened, by decide⟩)

/-- Behind these lines a block without an id stays one, and a closing too many is refused where it stands. -/
theorem pong_behind_ping :
    (Schema.ofLines (standard defaultSuppressed defaultMarker)
      (pingLines ++ ["message Pong \x7b", "  Ping ping = 1;", "\x7d"])).value = .ok ⟨["syntax = \"proto3\";"],
        [⟨"Ping", 7, ["message Ping \x7b", "\x7d"], [], []⟩,
          ⟨"Pong", 0, ["message Pong \x7b", "  Ping ping = 1;", "\x7d"], ["Ping"], []⟩]⟩ ∧
    (Schema.ofLines (standard defaultSuppressed defaultMarker)
      (pingLines ++ ["message Pong \x7b", "\x7d", "\x7d"])).value = .error (.unbalanced 7) := by
  have hOpens : OpensBlock (standard defaultSuppressed defaultMarker) [] "message Pong \x7b" := by decide
  obtain ⟨_, hBlocks, _⟩ := @Schema.sequel_stands_alone _ _ ["  Ping ping = 1;", "\x7d"] _ _ rfl rfl idsTaken_pingLines
    hOpens
  obtain ⟨_, _, hRefused⟩ := @Schema.sequel_stands_alone _ _ ["\x7d", "\x7d"] _ _ rfl rfl idsTaken_pingLines hOpens
  exact ⟨hBlocks _ rfl, (hRefused 3).mp rfl⟩

end Vocabulary

end Unbundle
