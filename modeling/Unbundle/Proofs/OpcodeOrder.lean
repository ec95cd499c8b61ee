/-
  Unbundle.Proofs.OpcodeOrder — a table of command ids depends on which blocks there are, not on their order.

  Entries are ordered by id and then by name, and this order leaves no two different entries level. So a table is the
  one ordered list of its entries, and what is read off it is the same for blocks in any order.

  - `eq_of_perm`: two ordered lists of the same entries are the same.
  - `shared_ids_ascending`, `mem_shared_iff`: the ids that are reported, each with all its names.
  - `entries_eq_of_renderJava_eq`: a class reads back as its table.
  - `table_is_canonical`: all of it, over every list of blocks.
-/

import Unbundle.Proofs.Distinct
import Unbundle.Proofs.Opcodes

namespace Unbundle

open Text

namespace OpcodeTable

/-! ## The order of entries -/

theorem entryLe_iff {a b : String × UInt32} : entryLe a b = true ↔ a.2 < b.2 ∨ a.2 = b.2 ∧ a.1 ≤ b.1 := by
  simp [entryLe]

theorem entryLe_trans (a b c : String × UInt32) (hab : entryLe a b = true) (hbc : entryLe b c = true) :
    entryLe a c = true := by
  rw [entryLe_iff] at hab hbc ⊢
  obtain hLess | ⟨hSame, hName⟩ := hab
  · obtain hLess' | ⟨hSame', _⟩ := hbc
    · exact .inl (UInt32.lt_trans hLess hLess')
    · exact .inl (hSame' ▸ hLess)
  · obtain hLess' | ⟨hSame', hName'⟩ := hbc
    · exact .inl (hSame ▸ hLess')
    · exact .inr ⟨hSame.trans hSame', String.le_trans hName hName'⟩

theorem entryLe_total (a b : String × UInt32) : (entryLe a b || entryLe b a) = true := by
  rw [Bool.or_eq_true, entryLe_iff, entryLe_iff]
  by_cases hSame : a.2 = b.2
  · exact (String.le_total a.1 b.1).imp (fun h => .inr ⟨hSame, h⟩) fun h => .inr ⟨hSame.symm, h⟩
  · exact (UInt32.lt_or_lt_of_ne hSame).imp .inl .inl

/-- Entries that stand level are the same. -/
theorem entryLe_antisymm {a b : String × UInt32} (hab : entryLe a b = true) (hba : entryLe b a = true) : a = b := by
  rw [entryLe_iff] at hab hba
  obtain hLess | ⟨hSame, hName⟩ := hab
  · obtain hLess' | ⟨hSame', _⟩ := hba
    · exact absurd hLess' (UInt32.lt_asymm hLess)
    · exact absurd hSame'.symm (UInt32.ne_of_lt hLess)
  · obtain hLess' | ⟨_, hName'⟩ := hba
    · exact absurd hSame.symm (UInt32.ne_of_lt hLess')
    · exact Prod.ext (String.le_antisymm hName hName') hSame

/-- Two ordered lists of the same entries are the same. -/
theorem eq_of_perm {entries more : List (String × UInt32)} (hEntries : entries.Pairwise (entryLe · ·))
    (hMore : more.Pairwise (entryLe · ·)) (hPerm : entries.Perm more) : entries = more :=
  hPerm.eq_of_pairwise (fun _ _ _ _ => entryLe_antisymm) hEntries hMore

/-! ## The table of a list of blocks -/

/-- The names and ids of the blocks that get a constant, as the blocks stand. -/
def chosen (blocks : List JudgedBlock) : List (String × UInt32) :=
  (blocks.filter fun b => b.isEmitted && b.block.commandId != 0).map fun b => (b.block.name, b.block.commandId)

variable (blocks : List JudgedBlock)

theorem perm_chosen : (ofBlocks blocks).entries.Perm (chosen blocks) :=
  List.mergeSort_perm _ _

theorem pairwise_entries : (ofBlocks blocks).entries.Pairwise (entryLe · ·) :=
  List.pairwise_mergeSort entryLe_trans entryLe_total _

theorem ofBlocks_perm {blocks more : List JudgedBlock} (h : blocks.Perm more) : ofBlocks blocks = ofBlocks more := by
  have hChosen : (chosen blocks).Perm (chosen more) := (h.filter _).map _
  have hEntries := (perm_chosen blocks).trans (hChosen.trans (perm_chosen more).symm)
  exact congrArg OpcodeTable.mk (eq_of_perm (pairwise_entries blocks) (pairwise_entries more) hEntries)

/-! ## Ids of several entries -/

variable {t : OpcodeTable}

/-- Every id that is reported, with all its names. -/
theorem mem_shared_iff {id : UInt32} {names : List String} :
    (id, names) ∈ t.shared ↔ 1 < t.entries.countP (·.2 == id) ∧ names = t.namesOf id := by
  have hLength : (t.namesOf id).length = t.entries.countP (·.2 == id) := by
    rw [namesOf, List.length_map, List.countP_eq_length_filter]
  simp only [shared, List.mem_filter, List.mem_map, List.mem_eraseDups, decide_eq_true_eq, Prod.mk.injEq]
  constructor
  · rintro ⟨⟨_, _, rfl, rfl⟩, hSeveral⟩
    exact ⟨hLength ▸ hSeveral, rfl⟩
  · rintro ⟨hSeveral, rfl⟩
    -- an id of several entries is that of one
    obtain ⟨entry, hEntry, hId⟩ := List.countP_pos_iff.mp (Nat.zero_lt_of_lt hSeveral)
    exact ⟨⟨id, ⟨entry, hEntry, beq_iff_eq.mp hId⟩, rfl, rfl⟩, hLength ▸ hSeveral⟩

/-- Ids are reported in ascending order, each of them once. -/
theorem shared_ids_ascending (h : t.entries.Pairwise (entryLe · ·)) : (t.shared.map Prod.fst).Pairwise (· < ·) := by
  have hIds : (t.entries.map Prod.snd).Pairwise (· ≤ ·) := by
    refine List.pairwise_map.mpr (h.imp fun hLe => ?_)
    exact (entryLe_iff.mp hLe).elim UInt32.le_of_lt fun hSame => UInt32.le_of_eq hSame.1
  have hGroups : ((t.entries.map Prod.snd).eraseDups.map fun id => (id, t.namesOf id)).map Prod.fst =
      (t.entries.map Prod.snd).eraseDups := by
    rw [List.map_map]
    exact List.map_id _
  have hOrdered := (hIds.sublist (eraseDups_sublist _)).and (nodup_eraseDups (t.entries.map Prod.snd))
  refine List.Pairwise.sublist (List.filter_sublist.map Prod.fst) ?_
  rw [hGroups]
  exact hOrdered.imp fun hBoth => UInt32.lt_of_le_of_ne hBoth.1 hBoth.2

/-! ## The class -/

/-- Tables of identifiers with the same class behind the same line have the same entries. -/
theorem entries_eq_of_renderJava_eq {t u : OpcodeTable} (hNames : ∀ entry ∈ t.entries, IsIdentifier entry.1)
    (hOthers : ∀ entry ∈ u.entries, IsIdentifier entry.1) {package : String}
    (h : t.renderJava package = u.renderJava package) : t.entries = u.entries := by
  have hConstants := congrArg constants h
  rw [constants_renderJava t package hNames, constants_renderJava u package hOthers, List.append_cancel_left_eq,
    List.cons.injEq] at hConstants
  have hInjective : Function.Injective fun entry : String × UInt32 => (entry.1, entry.2.toNat) := by
    intro a b hEq
    obtain ⟨hName, hNumber⟩ := Prod.mk.inj hEq
    exact Prod.ext hName (UInt32.toNat_inj.mp hNumber)
  exact List.map_injective_iff.mpr hInjective hConstants.2

/-! ## The table as a whole -/

/-- The entries of a table are those of the blocks that get a file and have a command id, ordered by id and then by
    name. Blocks in another order have the same table, with the same ids reported and the same class. What is reported
    are the ids of two entries and more, in ascending order, each with all its names. And two tables of identifiers
    with one class behind one line have the same entries. -/
theorem table_is_canonical (blocks : List JudgedBlock) :
    (ofBlocks blocks).entries.Perm ((blocks.filter fun b => b.isEmitted && b.block.commandId != 0).map
      fun b => (b.block.name, b.block.commandId)) ∧
    (ofBlocks blocks).entries.Pairwise (fun a b => a.2 < b.2 ∨ a.2 = b.2 ∧ a.1 ≤ b.1) ∧
    (∀ more, blocks.Perm more → (ofBlocks more).entries = (ofBlocks blocks).entries ∧
      (ofBlocks more).shared = (ofBlocks blocks).shared ∧ (ofBlocks more).warnings = (ofBlocks blocks).warnings ∧
      ∀ package, (ofBlocks more).renderJava package = (ofBlocks blocks).renderJava package) ∧
    ((ofBlocks blocks).shared.map Prod.fst).Pairwise (· < ·) ∧
    (∀ id names, (id, names) ∈ (ofBlocks blocks).shared ↔
      2 ≤ (ofBlocks blocks).entries.countP (·.2 == id) ∧
      names = ((ofBlocks blocks).entries.filter (·.2 == id)).map Prod.fst) ∧
    ∀ (t u : OpcodeTable) (package : String), (∀ entry ∈ t.entries ++ u.entries, IsIdentifier entry.1) →
      t.renderJava package = u.renderJava package → t.entries = u.entries := by
  refine ⟨perm_chosen blocks, ?_, fun more hPerm => ?_, ?_, fun id names => mem_shared_iff, ?_⟩
  · exact (pairwise_entries blocks).imp fun hLe => entryLe_iff.mp hLe
  · rw [ofBlocks_perm hPerm]
    exact ⟨rfl, rfl, rfl, fun _ => rfl⟩
  · exact shared_ids_ascending (pairwise_entries blocks)
  · intro t u package hNames hClass
    exact entries_eq_of_renderJava_eq (fun entry hEntry => hNames entry (List.mem_append_left _ hEntry))
      (fun entry hEntry => hNames entry (List.mem_append_right _ hEntry)) hClass

/-- Three blocks with two ids, one of them shared. -/
def crowded : List JudgedBlock :=
  [⟨⟨"B", 7, ["message B \x7b", "\x7d"], [], []⟩, .command⟩, ⟨⟨"C", 8, ["message C \x7b", "\x7d"], [], []⟩, .command⟩,
    ⟨⟨"A", 7, ["message A \x7b", "\x7d"], [], []⟩, .command⟩]

theorem crowded_entries : (ofBlocks crowded).entries = [("A", 7), ("B", 7), ("C", 8)] :=
  eq_of_perm (pairwise_entries crowded) (by decide) ((perm_chosen crowded).trans (List.isPerm_iff.mp (by decide)))

/-- Backwards, the blocks have the same table, and one id to report. -/
theorem crowded_is_canonical : crowded.Perm crowded.reverse ∧
    (ofBlocks crowded.reverse).entries = [("A", 7), ("B", 7), ("C", 8)] ∧
    (7, ["A", "B"]) ∈ (ofBlocks crowded.reverse).shared ∧
    (∀ entry ∈ (ofBlocks crowded).entries ++ (ofBlocks crowded.reverse).entries, IsIdentifier entry.1) ∧
    (ofBlocks crowded).renderJava "" = (ofBlocks crowded.reverse).renderJava "" ∧
    (ofBlocks crowded).entries = (ofBlocks crowded.reverse).entries := by
  have hPerm : crowded.Perm crowded.reverse := (List.reverse_perm crowded).symm
  obtain ⟨_, _, hSame, _, hShared, hRead⟩ := table_is_canonical crowded
  obtain ⟨hEntries, hReported, _, hClass⟩ := hSame crowded.reverse hPerm
  have hReversed : (ofBlocks crowded.reverse).entries = [("A", 7), ("B", 7), ("C", 8)] := hEntries.trans crowded_entries
  have hNames : ∀ entry ∈ (ofBlocks crowded).entries ++ (ofBlocks crowded.reverse).entries, IsIdentifier entry.1 := by
    rw [crowded_entries, hReversed]
    intro entry hEntry
    have hLetter : ∀ entry ∈ [("A", 7), ("B", 7), ("C", (8 : UInt32))], IsIdentifier entry.1 := by
      simp only [List.forall_mem_cons]
      exact ⟨⟨by decide, List.all_eq_true.mp (by decide)⟩, ⟨by decide, List.all_eq_true.mp (by decide)⟩,
        ⟨by decide, List.all_eq_true.mp (by decide)⟩, fun _ h => by cases h⟩
    exact (List.mem_append.mp hEntry).elim (hLetter entry) (hLetter entry)
  refine ⟨hPerm, hReversed, ?_, hNames, (hClass "").symm, hRead _ _ "" hNames (hClass "").symm⟩
  rw [hReported, hShared, crowded_entries]
  decide

end OpcodeTable

end Unbundle
