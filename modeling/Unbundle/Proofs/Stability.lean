/-
  Unbundle.Proofs.Stability — which verdicts change when the blocks or the blacklist do.

  A verdict looks at its own block, and at the imports of all blocks only for the name of its block. So another order of
  the blocks takes the verdicts along, one more block only counts for the blocks that it imports, and one more
  blacklisted name only for the blocks of that name.

  - `judge_congr`, `judge_append`: what a verdict sees of the imports.
  - `getElem?_resolve_rearranged`: the blocks in another order. `resolve_resolved`: a second resolution.
  - `exists_resolve_insert`: one more block. `resolve_blacklisting`: more blacklisted names.
  - `verdicts_react`: all of it about one list of blocks.
-/

import Mathlib.Logic.Equiv.Basic
import Unbundle.Proofs.Distinct
import Unbundle.Proofs.Selection

namespace Unbundle

/-! ## Pruning twice -/

theorem Block.pruned_pruned (b : Block) : b.pruned.pruned = b.pruned := by
  have hKept : (b.pruned.references.filter fun name => !b.nested.contains name) = b.pruned.references := by
    refine List.filter_eq_self.mpr fun name hName => ?_
    exact (List.mem_filter.mp (List.mem_eraseDups.mp hName)).2
  have hDistinct : b.pruned.references.eraseDups = b.pruned.references := eraseDups_of_nodup (nodup_eraseDups _)
  have hReferences : b.pruned.pruned.references =
      (b.pruned.references.filter fun name => !b.nested.contains name).eraseDups := rfl
  rw [hKept, hDistinct] at hReferences
  exact congrArg (fun references => { b with references }) hReferences

namespace JudgedBlock

/-- The verdict on a block once the names are imported too. -/
def importedToo (names : List String) (judged : JudgedBlock) : JudgedBlock :=
  if judged.eligibility = .unreferenced ∧ judged.block.name ∈ names then { judged with eligibility := .dependency }
  else judged

/-- The verdict on a block once the names are blacklisted too. -/
def blacklistedToo (names : List String) (judged : JudgedBlock) : JudgedBlock :=
  if judged.block.name ∈ names then { judged with eligibility := .blacklisted } else judged

theorem importedToo_of_isEmitted {judged : JudgedBlock} (h : judged.isEmitted = true) (names : List String) :
    judged.importedToo names = judged := by
  refine if_neg fun hBoth => ?_
  rw [isEmitted, hBoth.1] at h
  cases h

end JudgedBlock

namespace Selection

/-- The selection with more names that never get a file. -/
def blacklisting (s : Selection) (names : List String) : Selection := { s with blacklist := s.blacklist ++ names }

variable (s : Selection)

/-! ## What a verdict sees of the imports -/

/-- The verdict on a block among blocks that import these names. -/
def verdictOn (imported : List String) (b : Block) : JudgedBlock := ⟨b.pruned, s.judge imported b.pruned⟩

theorem value_resolve (blocks : List Block) :
    (s.resolve blocks).value = blocks.map (s.verdictOn (importedNames blocks)) :=
  List.map_map

theorem judge_congr {imported imported' : List String} {b : Block} (h : b.name ∈ imported ↔ b.name ∈ imported') :
    s.judge imported b = s.judge imported' b := by
  have hSeen : imported.contains b.name = imported'.contains b.name := by
    rw [Bool.eq_iff_iff, List.contains_iff_mem, List.contains_iff_mem, h]
  rw [judge, judge, hSeen]

/-- More imports only count for a block that nothing imported. -/
theorem judge_append (imported more : List String) (b : Block) : s.judge (imported ++ more) b =
    if s.judge imported b = .unreferenced ∧ b.name ∈ more then .dependency else s.judge imported b := by
  unfold judge
  by_cases hListed : b.name ∈ s.blacklist
  · simp [hListed]
  by_cases hId : b.hasCommandId = true
  · by_cases hObfuscated : s.looksObfuscated b.name = true
    · simp [hListed, hId, hObfuscated]
    · simp [hListed, hId, hObfuscated]
  · by_cases hImported : b.name ∈ imported
    · simp [hListed, hId, hImported]
    · simp [hListed, hId, hImported]

/-- More blacklisted names only count for the blocks of these names. -/
theorem judge_blacklisting (names imported : List String) (b : Block) : (s.blacklisting names).judge imported b =
    if b.name ∈ names then .blacklisted else s.judge imported b := by
  have hSame : (s.blacklisting names).looksObfuscated b.name = s.looksObfuscated b.name := rfl
  unfold judge
  rw [hSame]
  by_cases hListed : b.name ∈ s.blacklist
  · simp [blacklisting, hListed]
  · by_cases hNamed : b.name ∈ names
    · simp [blacklisting, hListed, hNamed]
    · simp [blacklisting, hListed, hNamed]

theorem mem_importedNames {blocks : List Block} {name : String} :
    name ∈ importedNames blocks ↔ ∃ b ∈ blocks, name ∈ b.pruned.references := by
  simp [importedNames]

/-! ## Four changes -/

/-- The same blocks in another order get the same verdicts in that order. -/
theorem getElem?_resolve_rearranged {blocks blocks' : List Block} {order : Equiv.Perm Nat}
    (h : ∀ i, blocks'[i]? = blocks[order i]?) (i : Nat) :
    (s.resolve blocks').value[i]? = (s.resolve blocks).value[order i]? := by
  have hBlocks : ∀ b, b ∈ blocks' ↔ b ∈ blocks := by
    intro b
    simp only [List.mem_iff_getElem?, h]
    exact order.exists_congr_left.trans (by simp)
  have hImported : ∀ name, name ∈ importedNames blocks' ↔ name ∈ importedNames blocks := by
    intro name
    simp only [mem_importedNames, hBlocks]
  rw [value_resolve, value_resolve, List.getElem?_map, List.getElem?_map, h i]
  congr 1
  funext b
  exact congrArg (JudgedBlock.mk b.pruned) (s.judge_congr (hImported b.name))

/-- Blocks that are resolved already come out of a resolution as they are. -/
theorem resolve_resolved (blocks : List Block) :
    s.resolve ((s.resolve blocks).value.map JudgedBlock.block) = s.resolve blocks := by
  have hPruned : (s.resolve blocks).value.map JudgedBlock.block = blocks.map Block.pruned := by
    rw [value_resolve, List.map_map]
    rfl
  have hAgain : (blocks.map Block.pruned).map Block.pruned = blocks.map Block.pruned := by
    rw [List.map_map]
    exact List.map_congr_left fun b _ => b.pruned_pruned
  have hJudged : s.judgeAll (blocks.map Block.pruned) = s.judgeAll blocks := by
    rw [judgeAll, judgeAll, hAgain]
  rw [hPruned, resolve, resolve, hJudged]

/-- Where a block stands among the others does not matter to them. -/
theorem verdictOn_insert (front rest : List Block) (b other : Block) :
    s.verdictOn (importedNames (front ++ b :: rest)) other =
      (s.verdictOn (importedNames (front ++ rest)) other).importedToo b.pruned.references := by
  have hSeen : s.judge (importedNames (front ++ b :: rest)) other.pruned =
      s.judge (importedNames (front ++ rest) ++ b.pruned.references) other.pruned := by
    apply s.judge_congr
    simp [importedNames, or_left_comm, or_comm]
  rw [verdictOn, hSeen, judge_append, verdictOn, JudgedBlock.importedToo]
  split
  · rfl
  · rfl

/-- One more block counts for the blocks that it imports and that nothing imported before. -/
theorem exists_resolve_insert (front rest : List Block) (b : Block) : ∃ front' judged rest',
    (s.resolve (front ++ rest)).value = front' ++ rest' ∧ front'.length = front.length ∧ judged.block = b.pruned ∧
      (s.resolve (front ++ b :: rest)).value = front'.map (JudgedBlock.importedToo judged.imports) ++
        judged :: rest'.map (JudgedBlock.importedToo judged.imports) := by
  have hMap : ∀ blocks : List Block, blocks.map (s.verdictOn (importedNames (front ++ b :: rest))) =
      (blocks.map (s.verdictOn (importedNames (front ++ rest)))).map (JudgedBlock.importedToo b.pruned.references) := by
    intro blocks
    rw [List.map_map]
    exact List.map_congr_left fun other _ => s.verdictOn_insert front rest b other
  refine ⟨front.map (s.verdictOn (importedNames (front ++ rest))), s.verdictOn (importedNames (front ++ b :: rest)) b,
    rest.map (s.verdictOn (importedNames (front ++ rest))), ?_, List.length_map _, rfl, ?_⟩
  · rw [value_resolve, List.map_append]
  · rw [value_resolve, List.map_append, List.map_cons, hMap, hMap]
    rfl

theorem resolve_blacklisting (names : List String) (blocks : List Block) :
    ((s.blacklisting names).resolve blocks).value =
      (s.resolve blocks).value.map (JudgedBlock.blacklistedToo names) := by
  rw [value_resolve, value_resolve, List.map_map]
  refine List.map_congr_left fun b _ => ?_
  rw [verdictOn, judge_blacklisting, Function.comp_apply, verdictOn, JudgedBlock.blacklistedToo]
  split
  · rfl
  · rfl

/-- Resolving blocks in another order gives the same verdicts in that order, and resolving what is resolved gives it
    again. One more block, wherever it is put, gives a file to the unreferenced blocks that it imports and leaves all
    other verdicts and all imports as they are; so no block loses its file. More blacklisted names take the files of the
    blocks of these names, and that is all they do. -/
theorem verdicts_react (s : Selection) :
    (∀ (blocks blocks' : List Block) (order : Equiv.Perm Nat), (∀ i, blocks'[i]? = blocks[order i]?) →
      ∀ i, (s.resolve blocks').value[i]? = (s.resolve blocks).value[order i]?) ∧
    (∀ blocks, s.resolve ((s.resolve blocks).value.map JudgedBlock.block) = s.resolve blocks) ∧
    (∀ (front rest : List Block) (b : Block), ∃ front' judged rest',
      (s.resolve (front ++ rest)).value = front' ++ rest' ∧ front'.length = front.length ∧ judged.block = b.pruned ∧
      (s.resolve (front ++ b :: rest)).value = front'.map (JudgedBlock.importedToo judged.imports) ++
        judged :: rest'.map (JudgedBlock.importedToo judged.imports) ∧
      ∀ other ∈ front' ++ rest', other.isEmitted = true → other.importedToo judged.imports = other) ∧
    ∀ (names : List String) (blocks : List Block), ((s.blacklisting names).resolve blocks).value =
      (s.resolve blocks).value.map (JudgedBlock.blacklistedToo names) := by
  refine ⟨fun _ _ _ => s.getElem?_resolve_rearranged, s.resolve_resolved, fun front rest b => ?_,
    s.resolve_blacklisting⟩
  obtain ⟨front', judged, rest', hBefore, hLength, hBlock, hBehind⟩ := s.exists_resolve_insert front rest b
  refine ⟨front', judged, rest', hBefore, hLength, hBlock, hBehind, fun other _ hEmitted => ?_⟩
  exact JudgedBlock.importedToo_of_isEmitted hEmitted judged.imports

/-- A command that imports the block that nothing imports. -/
def stem : Block := ⟨"Stem", 7, ["message Stem \x7b", "  Holder holder = 1;", "\x7d"], ["Holder"], []⟩

/-- Two blocks the other way round, a third one between them, and one of them blacklisted. -/
theorem holder_leaf_react : (∀ i, [leaf, holder][i]? = [holder, leaf][Equiv.swap 0 1 i]?) ∧
    (Selection.default.resolve [leaf, holder]).value[0]? = some ⟨leaf, .dependency⟩ ∧
    (Selection.default.resolve [holder, stem, leaf]).value[0]? = some ⟨holder, .dependency⟩ ∧
    ((Selection.default.blacklisting ["Leaf"]).resolve [holder, leaf]).value =
      [⟨holder, .unreferenced⟩, ⟨leaf, .blacklisted⟩] := by
  have hSwapped : ∀ i, [leaf, holder][i]? = [holder, leaf][Equiv.swap 0 1 i]? := by
    intro i
    rcases i with _ | _ | i
    · rfl
    · rfl
    · rw [Equiv.swap_apply_of_ne_of_ne (by omega) (by omega)]
      rfl
  obtain ⟨hOrder, _, hInsert, hListed⟩ := verdicts_react Selection.default
  refine ⟨hSwapped, ?_, ?_, ?_⟩
  · rw [hOrder _ _ _ hSwapped, resolve_holder_leaf]
    rfl
  · obtain ⟨front', judged, rest', hBefore, hLength, hBlock, hBehind, _⟩ := hInsert [holder] [leaf] stem
    have hFront : [⟨holder, .unreferenced⟩] ++ [⟨leaf, .dependency⟩] = front' ++ rest' :=
      resolve_holder_leaf.symm.trans hBefore
    obtain ⟨rfl, _⟩ := List.append_inj hFront hLength.symm
    have hImports : judged.imports = ["Holder"] := by rw [JudgedBlock.imports, hBlock]; rfl
    have hHolder := congrArg (·[0]?) hBehind
    rw [hImports] at hHolder
    exact hHolder
  · rw [hListed, resolve_holder_leaf]
    decide

end Selection

end Unbundle
