/-
  Unbundle.Proofs.Glossary.Rebuilding — a glossary made again from its own entries.

  The names of a finished glossary stand in order, hold no spaces and are not empty, and neither are its clear names. So
  its entries are rows that can all be used, that all agree, and that bring their clear names to different texts: made
  again from them, a glossary comes out as it was, whatever their order and however often each of them is there.

  - `cleanPairs_finish`: what holds of every finished glossary.
  - `agreed_rowsOfPairs_iff`: clean pairs agree on themselves and on nothing else.
  - `get?_ofPairs_iff`, `stats_ofPairs`: the glossary of clean pairs holds just these, and nothing but them is counted.
  - `rebuilt_from_entries`: both, over every sequence of rows, and the tree of a glossary.
-/

import Unbundle.Proofs.Alteration
import Unbundle.Proofs.Glossary.Counts
import Unbundle.Proofs.Lookup

namespace Unbundle

/-- Pairs of names and clear names as a finished glossary has them: each name has one clear name, neither is empty, and
    the name holds no space. -/
structure CleanPairs (pairs : List (String × String)) : Prop where
  name : ∀ p ∈ pairs, p.1 ≠ "" ∧ ' ' ∉ p.1.toList
  value : ∀ p ∈ pairs, p.2 ≠ ""
  single : ∀ p ∈ pairs, ∀ q ∈ pairs, p.1 = q.1 → p.2 = q.2

theorem CleanPairs.of_subset {pairs more : List (String × String)} (h : CleanPairs more) (hSubset : pairs ⊆ more) :
    CleanPairs pairs where
  name p hp := h.name p (hSubset hp)
  value p hp := h.value p (hSubset hp)
  single p hp q hq := h.single p (hSubset hp) q (hSubset hq)

namespace Glossary

variable (g : Glossary)

theorem mem_toList_iff {key value : String} : (key, value) ∈ g.toList ↔ g.get? key = some value :=
  Std.ExtTreeMap.mem_toList_iff_getElem?_eq_some

/-- The names of a glossary stand in code point order, each of them once. -/
theorem pairwise_names : (g.toList.map Prod.fst).Pairwise (· < ·) := by
  have hOrdered : g.entries.keys.Pairwise fun a b => compare a b = .lt := Std.ExtTreeMap.ordered_keys
  rw [toList, Std.ExtTreeMap.map_fst_toList_eq_keys]
  exact hOrdered.imp fun h => compareOfLessAndEq_eq_lt.mp h

/-- The tree of a glossary counts its names, if none of them is empty. -/
theorem size_keyTree (h : ∀ p ∈ g.toList, p.1 ≠ "") : g.keyTree.size = g.size := by
  have hDistinct : (g.toList.map Prod.fst).Nodup := by
    rw [toList, Std.ExtTreeMap.map_fst_toList_eq_keys]
    exact Std.ExtTreeMap.nodup_keys
  have hBlank : "" ∉ (g.toList.map Prod.fst).toFinset := by
    intro hMem
    obtain ⟨p, hp, hName⟩ := List.mem_map.mp (List.mem_toFinset.mp hMem)
    exact h p hp hName
  rw [keyTree, KeyTree.size_ofList, KeyTree.keysOf, Finset.erase_eq_of_notMem hBlank,
    List.toFinset_card_of_nodup hDistinct, List.length_map]
  exact Std.ExtTreeMap.length_toList

end Glossary

namespace Draft

/-! ## Finished glossaries -/

/-- The entries of a finished glossary, whatever rows it was made from. -/
theorem cleanPairs_finish (rows : List (Nat × List String)) :
    CleanPairs (empty.pushRows rows).finish.value.toList where
  name p hp := by
    have hHeld := (Glossary.mem_toList_iff _).mp hp
    exact ⟨((get?_rows rows p.1 p.2).mp hHeld).1, space_not_mem_of_mem_finish hp⟩
  value p hp := by
    obtain ⟨_, ⟨key, value, hKey, hAgreed⟩, hOne⟩ := (get?_rows rows p.1 p.2).mp ((Glossary.mem_toList_iff _).mp hp)
    have hEq := hOne key value hKey hAgreed
    -- a row gave the clear name, and rows with an empty one give none
    obtain ⟨⟨row, _, _, hValue, _⟩, _⟩ := hAgreed
    rwa [← hEq]
  single p hp q hq hName := by
    have hp' := (Glossary.mem_toList_iff _).mp hp
    have hq' := (Glossary.mem_toList_iff _).mp hq
    rw [hName, hq'] at hp'
    exact (Option.some.inj hp').symm

/-! ## Pairs as rows -/

/-- Pairs as numbered rows. -/
def rowsOfPairs (pairs : List (String × String)) : List (Nat × List String) :=
  ((pairs.map fun p => [p.1, p.2]).zipIdx 1).map Prod.swap

theorem value_ofPairs (pairs : List (String × String)) :
    (Glossary.ofPairs pairs).value = (empty.pushRows (rowsOfPairs pairs)).finish.value := by
  rw [Glossary.ofPairs, Logged.value_bind, value_pushAll]
  rfl

theorem columns_rowsOfPairs (pairs : List (String × String)) :
    (rowsOfPairs pairs).map Prod.snd = pairs.map fun p => [p.1, p.2] := by
  rw [rowsOfPairs, List.map_map]
  exact List.zipIdx_map_fst 1 _

theorem exists_mem_rowsOfPairs_iff {pairs : List (String × String)} {columns : List String} :
    (∃ row ∈ rowsOfPairs pairs, row.2 = columns) ↔ ∃ p ∈ pairs, [p.1, p.2] = columns := by
  rw [← List.mem_map, columns_rowsOfPairs, List.mem_map]

theorem gives_pair_iff {p : String × String} {key value : String} :
    Gives [p.1, p.2] key value ↔ p = (key, value) ∧ key ≠ "" ∧ value ≠ "" := by
  unfold Gives
  constructor
  · rintro ⟨hKey, hValue, more, hColumns⟩
    obtain ⟨rfl, hRest⟩ := List.cons.inj hColumns
    obtain ⟨rfl, _⟩ := List.cons.inj hRest
    exact ⟨rfl, hKey, hValue⟩
  · rintro ⟨rfl, hKey, hValue⟩
    exact ⟨hKey, hValue, [], rfl⟩

variable {pairs : List (String × String)}

/-- A row of clean pairs gives a name a clear name if the two are one of the pairs. -/
theorem exists_gives_rowsOfPairs_iff (h : CleanPairs pairs) {key value : String} :
    (∃ row ∈ rowsOfPairs pairs, Gives row.2 key value) ↔ (key, value) ∈ pairs := by
  constructor
  · rintro ⟨row, hRow, hGives⟩
    obtain ⟨p, hp, hColumns⟩ := exists_mem_rowsOfPairs_iff.mp ⟨row, hRow, rfl⟩
    rw [← hColumns] at hGives
    obtain ⟨rfl, _⟩ := gives_pair_iff.mp hGives
    exact hp
  · intro hp
    obtain ⟨row, hRow, hColumns⟩ := exists_mem_rowsOfPairs_iff.mpr ⟨_, hp, rfl⟩
    exact ⟨row, hRow, hColumns ▸ gives_pair_iff.mpr ⟨rfl, (h.name _ hp).1, h.value _ hp⟩⟩

theorem agreed_rowsOfPairs_iff (h : CleanPairs pairs) {key value : String} :
    Agreed (rowsOfPairs pairs) key value ↔ (key, value) ∈ pairs := by
  unfold Agreed
  rw [exists_gives_rowsOfPairs_iff h]
  refine and_iff_left_of_imp fun hp row hRow other hGives => ?_
  exact h.single _ ((exists_gives_rowsOfPairs_iff h).mp ⟨row, hRow, hGives⟩) _ hp rfl

theorem collapse_of_space_not_mem {key : String} (h : ' ' ∉ key.toList) : collapse key = key := by
  have hAll : key.toList.filter (· ≠ ' ') = key.toList :=
    List.filter_eq_self.mpr fun c hc => decide_eq_true fun hSpace => h (hSpace ▸ hc)
  rw [collapse, hAll, String.ofList_toList]

/-! ## The glossary of clean pairs -/

/-- The glossary of clean pairs holds them and nothing else. -/
theorem get?_ofPairs_iff (h : CleanPairs pairs) {key value : String} :
    (Glossary.ofPairs pairs).value.get? key = some value ↔ (key, value) ∈ pairs := by
  rw [value_ofPairs, get?_rows]
  simp only [agreed_rowsOfPairs_iff h]
  constructor
  · rintro ⟨_, ⟨name, other, hKey, hp⟩, hOne⟩
    obtain rfl := hOne name other hKey hp
    rw [collapse_of_space_not_mem (h.name _ hp).2] at hKey
    rwa [← hKey]
  · intro hp
    refine ⟨(h.name _ hp).1, ⟨key, value, collapse_of_space_not_mem (h.name _ hp).2, hp⟩, fun name other hKey hq => ?_⟩
    rw [collapse_of_space_not_mem (h.name _ hq).2] at hKey
    exact h.single _ hq _ hp hKey

/-- Rows of clean pairs can all be used. -/
theorem isUsable_rowsOfPairs (h : CleanPairs pairs) {row : Nat × List String} (hRow : row ∈ rowsOfPairs pairs) :
    IsUsable row.2 := by
  obtain ⟨p, hp, hColumns⟩ := exists_mem_rowsOfPairs_iff.mp ⟨row, hRow, rfl⟩
  rw [← hColumns]
  exact ⟨p.1, p.2, gives_pair_iff.mpr ⟨rfl, (h.name p hp).1, h.value p hp⟩⟩

theorem disputed_rowsOfPairs (h : CleanPairs pairs) : disputed (rowsOfPairs pairs) = ∅ := by
  refine Set.eq_empty_iff_forall_notMem.mpr ?_
  rintro key ⟨row, hRow, row', hRow', value, value', hGives, hGives', hne⟩
  have hp := (exists_gives_rowsOfPairs_iff h).mp ⟨row, hRow, hGives⟩
  have hq := (exists_gives_rowsOfPairs_iff h).mp ⟨row', hRow', hGives'⟩
  exact hne (h.single _ hp _ hq rfl)

theorem clashing_rowsOfPairs (h : CleanPairs pairs) : clashing (rowsOfPairs pairs) = ∅ := by
  refine Set.eq_empty_iff_forall_notMem.mpr ?_
  rintro text ⟨_, key, key', value, value', hKey, hKey', hAgreed, hAgreed', hne⟩
  rw [agreed_rowsOfPairs_iff h] at hAgreed hAgreed'
  rw [collapse_of_space_not_mem (h.name _ hAgreed).2] at hKey
  rw [collapse_of_space_not_mem (h.name _ hAgreed').2] at hKey'
  exact hne (h.single _ hAgreed _ hAgreed' (hKey.trans hKey'.symm))

theorem spaced_rowsOfPairs (h : CleanPairs pairs) : spaced (rowsOfPairs pairs) = ∅ := by
  refine Set.eq_empty_iff_forall_notMem.mpr ?_
  rintro key ⟨hSpace, value, hAgreed⟩
  exact (h.name _ ((agreed_rowsOfPairs_iff h).mp hAgreed)).2 hSpace

/-- Every one of clean pairs counts as a record, and nothing else is counted. -/
theorem stats_ofPairs (h : CleanPairs pairs) : (Glossary.ofPairs pairs).value.stats = ⟨pairs.length, 0, 0, 0⟩ := by
  have hLength : (rowsOfPairs pairs).length = pairs.length := by simp [rowsOfPairs]
  have hRecords : (Glossary.ofPairs pairs).value.stats.records = pairs.length := by
    rw [value_ofPairs, records_eq_countP, List.countP_eq_length.mpr, hLength]
    exact fun row hRow => decide_eq_true (isUsable_rowsOfPairs h hRow)
  have hMalformed : (Glossary.ofPairs pairs).value.stats.malformed = 0 := by
    rw [value_ofPairs, malformed_eq_countP, List.countP_eq_zero]
    exact fun row hRow hNot => of_decide_eq_true hNot (isUsable_rowsOfPairs h hRow)
  have hInconsistent : (Glossary.ofPairs pairs).value.stats.inconsistent = 0 := by
    have hCount := inconsistent_eq_encard (rowsOfPairs pairs)
    rw [disputed_rowsOfPairs h, clashing_rowsOfPairs h, Set.encard_empty, add_zero, ← value_ofPairs] at hCount
    exact_mod_cast hCount
  have hNormalized : (Glossary.ofPairs pairs).value.stats.normalized = 0 := by
    have hCount := normalized_eq_encard (rowsOfPairs pairs)
    rw [spaced_rowsOfPairs h, Set.encard_empty, ← value_ofPairs] at hCount
    exact_mod_cast hCount
  calc (Glossary.ofPairs pairs).value.stats
      = ⟨(Glossary.ofPairs pairs).value.stats.records, (Glossary.ofPairs pairs).value.stats.malformed,
          (Glossary.ofPairs pairs).value.stats.inconsistent, (Glossary.ofPairs pairs).value.stats.normalized⟩ := rfl
    _ = ⟨pairs.length, 0, 0, 0⟩ := by rw [hRecords, hMalformed, hInconsistent, hNormalized]

/-! ## Made again -/

/-- The names of a glossary stand in strict order, are not empty and hold no space, and no clear name is empty. Made
    again from its entries, in any order and with any repetitions, it is the same, and nothing is left out, dropped or
    changed on the way. The tree in which names are looked up has as many keys as the glossary has names. -/
theorem rebuilt_from_entries (rows : List (Nat × List String)) :
    ((empty.pushRows rows).finish.value.toList.map Prod.fst).Pairwise (· < ·) ∧
    (∀ p ∈ (empty.pushRows rows).finish.value.toList, p.1 ≠ "" ∧ ' ' ∉ p.1.toList ∧ p.2 ≠ "") ∧
    (∀ pairs, (∀ p, p ∈ pairs ↔ p ∈ (empty.pushRows rows).finish.value.toList) →
      (Glossary.ofPairs pairs).value.entries = (empty.pushRows rows).finish.value.entries ∧
      (Glossary.ofPairs pairs).value.stats = ⟨pairs.length, 0, 0, 0⟩) ∧
    (empty.pushRows rows).finish.value.keyTree.size = (empty.pushRows rows).finish.value.size := by
  have hClean := cleanPairs_finish rows
  refine ⟨Glossary.pairwise_names _, fun p hp => ?_, fun pairs hEntries => ?_, Glossary.size_keyTree _ fun p hp => ?_⟩
  · exact ⟨(hClean.name p hp).1, (hClean.name p hp).2, hClean.value p hp⟩
  · have hPairs : CleanPairs pairs := hClean.of_subset fun p => (hEntries p).mp
    refine ⟨Std.ExtTreeMap.ext_getElem? fun key => Option.ext fun value => ?_, stats_ofPairs hPairs⟩
    exact (get?_ofPairs_iff hPairs).trans ((hEntries _).trans (Glossary.mem_toList_iff _))
  · exact (hClean.name p hp).1

/-- The entries backwards, one of them twice, make the glossary that rows with spaces and disputes made. -/
theorem mixedRows_rebuilt : (∀ p, p ∈ [("E", "v"), ("CD", "z"), ("E", "v")] ↔
      p ∈ (empty.pushRows (mixedRows ++ [(10, ["E", "v"])])).finish.value.toList) ∧
    (Glossary.ofPairs [("E", "v"), ("CD", "z"), ("E", "v")]).value.stats = ⟨3, 0, 0, 0⟩ ∧
    (Glossary.ofPairs [("E", "v"), ("CD", "z"), ("E", "v")]).value.entries =
      (empty.pushRows (mixedRows ++ [(10, ["E", "v"])])).finish.value.entries ∧
    ("E", "v").1 ≠ "" := by
  have hList : (empty.pushRows (mixedRows ++ [(10, ["E", "v"])])).finish.value.toList = [("CD", "z"), ("E", "v")] := by
    decide +kernel
  have hEntries : ∀ p, p ∈ [("E", "v"), ("CD", "z"), ("E", "v")] ↔
      p ∈ (empty.pushRows (mixedRows ++ [(10, ["E", "v"])])).finish.value.toList := by
    intro p
    rw [hList]
    simp only [List.mem_cons, List.not_mem_nil, or_false]
    tauto
  obtain ⟨_, hNames, hAgain, _⟩ := rebuilt_from_entries (mixedRows ++ [(10, ["E", "v"])])
  obtain ⟨hSame, hStats⟩ := hAgain _ hEntries
  exact ⟨hEntries, hStats, hSame, (hNames ("E", "v") (by rw [hList]; decide)).1⟩

end Draft

end Unbundle
