/-
  Unbundle.Proofs.Selection — which blocks without a command id get a file.

  Such a block gets a file for being imported. The importer need not get one itself: the verdicts go by the
  imports of all pruned blocks, so a chain of blocks that nothing emitted leads to is emitted from its second
  block on.

  - `make_eq_ok_iff`: the selection for a pattern.
  - `getElem?_resolve`: the verdict on a block, by its place.
  - `isEmitted_judge_iff`: without a command id, what is imported is what is emitted.
  - `judge_eq_command_iff`: with one, what is emitted is judged to be a command, and nothing else is.
  - `emitted_of_imported`: another block's import is enough, and without any import there is no file.
  - `not_emittedByEmitted`: that the importer gets a file is not needed.
-/

import Unbundle.Selection

namespace Unbundle

/-! ## Importers -/

/-- A block at another place than `i` imports the type `name`. -/
def ImportedByOther (judged : List JudgedBlock) (i : Nat) (name : String) : Prop :=
  ∃ (j : Nat) (other : JudgedBlock), j ≠ i ∧ judged[j]? = some other ∧ name ∈ other.imports

/-- A block at another place than `i` imports the type `name`, and gets a file. -/
def ImportedByEmitted (judged : List JudgedBlock) (i : Nat) (name : String) : Prop :=
  ∃ (j : Nat) (other : JudgedBlock), j ≠ i ∧ judged[j]? = some other ∧ other.isEmitted = true ∧ name ∈ other.imports

namespace Selection

/-- A pattern and a blacklist make a selection if the pattern is empty or a library takes it. -/
theorem make_eq_ok_iff [Formats] {pattern : String} {blacklist : List String} {s : Selection} :
    make pattern blacklist = .ok s ↔ pattern = "" ∧ s = ⟨none, blacklist⟩ ∨
      pattern ≠ "" ∧ ∃ found, Formats.pattern pattern = .ok found ∧ s = ⟨some found, blacklist⟩ := by
  unfold make
  by_cases hEmpty : pattern = ""
  · simp [hEmpty, eq_comm]
  · rw [if_neg hEmpty]
    rcases Formats.pattern pattern with reason | found
    · simp [hEmpty]
    · simp [hEmpty, eq_comm]

/-- The names that pruned blocks import. -/
def importedNames (blocks : List Block) : List String := (blocks.map Block.pruned).flatMap Block.references

variable (s : Selection) (blocks : List Block)

theorem getElem?_resolve (i : Nat) : (s.resolve blocks).value[i]? =
    blocks[i]?.map fun b => ⟨b.pruned, s.judge (importedNames blocks) b.pruned⟩ := by
  have hValue : (s.resolve blocks).value = s.judgeAll blocks := rfl
  rw [hValue, judgeAll, List.map_map, List.getElem?_map]
  rfl

/-- What is judged is a pruned block. -/
theorem exists_of_mem_resolve {judged : JudgedBlock} (h : judged ∈ (s.resolve blocks).value) :
    ∃ b ∈ blocks, judged.block = b.pruned ∧ judged.eligibility = s.judge (importedNames blocks) judged.block := by
  obtain ⟨i, hi⟩ := List.mem_iff_getElem?.mp h
  rw [getElem?_resolve, Option.map_eq_some_iff] at hi
  obtain ⟨b, hb, rfl⟩ := hi
  exact ⟨b, List.mem_of_getElem? hb, rfl, rfl⟩

/-- A name is imported if it is among the imports of the block at some place. -/
theorem mem_importedNames_iff {name : String} : name ∈ importedNames blocks ↔
    ∃ (j : Nat) (other : JudgedBlock), (s.resolve blocks).value[j]? = some other ∧ name ∈ other.imports := by
  simp only [importedNames, List.mem_flatMap, List.mem_map, getElem?_resolve, Option.map_eq_some_iff]
  constructor
  · rintro ⟨_, ⟨b, hb, rfl⟩, hName⟩
    obtain ⟨j, hj⟩ := List.mem_iff_getElem?.mp hb
    exact ⟨j, _, ⟨b, hj, rfl⟩, hName⟩
  · rintro ⟨j, _, ⟨b, hj, rfl⟩, hName⟩
    exact ⟨b.pruned, ⟨b, List.mem_of_getElem? hj, rfl⟩, hName⟩

theorem isEmitted_judge_iff {imported : List String} {b : Block} (hId : b.commandId = 0)
    (hListed : b.name ∉ s.blacklist) : (s.judge imported b).isEmitted = true ↔ b.name ∈ imported := by
  have hNone : b.hasCommandId = false := by simp [Block.hasCommandId, hId]
  by_cases h : b.name ∈ imported
  · simp [judge, hListed, hNone, h, Eligibility.isEmitted]
  · simp [judge, hListed, hNone, h, Eligibility.isEmitted]

/-- Of the blocks that get a file, those with a command id get it for their id. -/
theorem judge_eq_command_iff {imported : List String} {b : Block} (hEmitted : (s.judge imported b).isEmitted = true) :
    s.judge imported b = .command ↔ b.commandId ≠ 0 := by
  unfold judge at *
  by_cases hListed : s.blacklist.contains b.name = true
  · rw [if_pos hListed] at hEmitted
    cases hEmitted
  rw [if_neg hListed] at *
  by_cases hId : b.hasCommandId = true
  · rw [if_pos hId] at *
    by_cases hObfuscated : s.looksObfuscated b.name = true
    · rw [if_pos hObfuscated] at hEmitted
      cases hEmitted
    · rw [if_neg hObfuscated]
      simpa [Block.hasCommandId] using hId
  · have hNone : b.commandId = 0 := by simpa [Block.hasCommandId] using hId
    rw [if_neg hId, hNone]
    split
    all_goals simp

/-- A block without a command id gets a file if another block imports it, whether or not that block gets one. If
    no block imports it, it gets none. -/
theorem emitted_of_imported {i : Nat} {b : Block} (hBlock : blocks[i]? = some b) (hId : b.commandId = 0)
    (hListed : b.name ∉ s.blacklist) :
    ∃ judged, (s.resolve blocks).value[i]? = some judged ∧ judged.block = b.pruned ∧
      (ImportedByOther (s.resolve blocks).value i b.name → judged.isEmitted = true) ∧
      (judged.isEmitted = true → ImportedByOther (s.resolve blocks).value i b.name ∨ b.name ∈ judged.imports) := by
  have hJudged : (s.resolve blocks).value[i]? = some ⟨b.pruned, s.judge (importedNames blocks) b.pruned⟩ := by
    rw [getElem?_resolve, hBlock, Option.map_some]
  have hEmitted : (s.judge (importedNames blocks) b.pruned).isEmitted = true ↔ b.name ∈ importedNames blocks :=
    s.isEmitted_judge_iff (b := b.pruned) hId hListed
  refine ⟨_, hJudged, rfl, ?_, ?_⟩
  · rintro ⟨j, other, _, hOther, hName⟩
    exact hEmitted.mpr ((mem_importedNames_iff s blocks).mpr ⟨j, other, hOther, hName⟩)
  · intro h
    obtain ⟨j, other, hOther, hName⟩ := (mem_importedNames_iff s blocks).mp (hEmitted.mp h)
    by_cases hj : j = i
    · right
      subst hj
      obtain rfl := Option.some.inj (hJudged.symm.trans hOther)
      exact hName
    · left
      exact ⟨j, other, hj, hOther, hName⟩

/-- A block that nothing imports. -/
def holder : Block := ⟨"Holder", 0, ["message Holder \x7b", "  Leaf leaf = 1;", "\x7d"], ["Leaf"], []⟩

/-- The block it imports. -/
def leaf : Block := ⟨"Leaf", 0, ["message Leaf \x7b", "\x7d"], [], []⟩

theorem resolve_holder_leaf :
    (Selection.default.resolve [holder, leaf]).value = [⟨holder, .unreferenced⟩, ⟨leaf, .dependency⟩] := rfl

/-- The importer of an emitted block gets no file here. -/
theorem leaf_emitted : leaf.commandId = 0 ∧ leaf.name ∉ Selection.default.blacklist ∧
    ∃ judged, (Selection.default.resolve [holder, leaf]).value[1]? = some judged ∧ judged.block = leaf ∧
      judged.isEmitted = true := by
  have hListed : leaf.name ∉ Selection.default.blacklist := List.not_mem_nil
  obtain ⟨judged, hJudged, hBlock, hEmitted, _⟩ :=
    emitted_of_imported Selection.default [holder, leaf] (i := 1) (b := leaf) rfl rfl hListed
  refine ⟨rfl, hListed, judged, hJudged, hBlock, hEmitted ⟨0, ⟨holder, .unreferenced⟩, by decide, rfl, ?_⟩⟩
  exact List.mem_singleton_self _

/-- That another emitted block imports it is not what decides whether a block without a command id is emitted. -/
theorem not_emittedByEmitted :
    ¬ ∀ (s : Selection) (blocks : List Block) (i : Nat) (judged : JudgedBlock),
      (s.resolve blocks).value[i]? = some judged → judged.block.commandId = 0 →
      judged.block.name ∉ s.blacklist →
      (judged.isEmitted = true ↔ ImportedByEmitted (s.resolve blocks).value i judged.block.name) := by
  intro h
  have hLeaf := h Selection.default [holder, leaf] 1 ⟨leaf, .dependency⟩ rfl rfl List.not_mem_nil
  obtain ⟨j, other, hj, hOther, hEmitted, _⟩ := hLeaf.mp rfl
  rw [resolve_holder_leaf] at hOther
  rcases j with _ | _ | j
  · obtain rfl := Option.some.inj hOther
    cases hEmitted
  · exact hj rfl
  · cases hOther

end Selection

end Unbundle
