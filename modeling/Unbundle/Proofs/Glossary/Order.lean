/-
  Unbundle.Proofs.Glossary.Order — the order of rows leaves no trace in a glossary.

  A draft keeps the first clear name of every name, so a draft does depend on the order of its rows. But it does so
  only at names whose rows disagree, and there the clear name is never looked at again.

  - `Usage.settled_ofValues_of_perm`: how many rows a name has, and whether they agree, is the same in any order.
  - `records_pushRows`, `malformed_pushRows`: so are the counts of rows.
  - `finish_settled`: the glossary of a draft, and all that is reported on the way to it, comes from what is settled.
  - `rows_in_any_order`: the same rows in another order make the same glossary, with the same reports, and split
    every schema alike.
-/

import Unbundle.Proofs.Glossary.Agreement
import Unbundle.Splitter

namespace Unbundle

namespace Usage

/-- A usage as far as it counts: where rows disagree, the clear name of the first of them does not. -/
def settled (u : Usage) : Usage := if u.agreed then u else { u with value := "" }

theorem settled_of_agreed {u : Usage} (h : u.agreed = true) : u.settled = u := if_pos h

theorem settled_of_not_agreed {u : Usage} (h : u.agreed = false) : u.settled = { u with value := "" } :=
  if_neg (by simp [h])

/-- Agreement with the first clear name, said of any two. -/
theorem all_eq_first_iff {first : String} {rest : List String} :
    rest.all (· == first) = true ↔ ∀ a ∈ first :: rest, ∀ b ∈ first :: rest, a = b := by
  simp only [List.all_eq_true, beq_iff_eq]
  constructor
  · intro h
    have hFirst : ∀ a ∈ first :: rest, a = first := List.forall_mem_cons.mpr ⟨rfl, h⟩
    intro a ha b hb
    exact (hFirst a ha).trans (hFirst b hb).symm
  · intro h a ha
    exact h a (List.mem_cons_of_mem first ha) first List.mem_cons_self

theorem settled_ofValues_of_perm {values values' : List String} (h : values.Perm values') :
    (ofValues values).map settled = (ofValues values').map settled := by
  rcases values with _ | ⟨first, rest⟩
  · rw [h.nil_eq]
  rcases values' with _ | ⟨first', rest'⟩
  · exact absurd h.eq_nil (List.cons_ne_nil first rest)
  have hLength : rest.length = rest'.length := by simpa using h.length_eq
  have hAgreed : rest.all (· == first) = rest'.all (· == first') := by
    rw [Bool.eq_iff_iff, all_eq_first_iff, all_eq_first_iff]
    simp only [h.mem_iff]
  simp only [ofValues, Option.map_some, Option.some.injEq]
  cases hAll : rest.all (· == first) with
  | true =>
    have hFirst : first = first' :=
      all_eq_first_iff.mp hAll first List.mem_cons_self first' (h.mem_iff.mpr List.mem_cons_self)
    rw [← hAgreed, hAll, hLength, hFirst]
  | false =>
    rw [← hAgreed, hAll, hLength, settled_of_not_agreed rfl, settled_of_not_agreed rfl]

end Usage

namespace Draft

/-- A draft as far as it counts. -/
def settled (d : Draft) : Draft := { d with names := d.names.map fun _ u => u.settled }

/-! ## A draft in another order -/

theorem valuesOf_perm {rows rows' : List (Nat × List String)}
    (h : (rows.map Prod.snd).Perm (rows'.map Prod.snd)) (key : String) :
    (valuesOf rows key).Perm (valuesOf rows' key) := by
  have hColumns : ∀ rows : List (Nat × List String), valuesOf rows key = (rows.map Prod.snd).filterMap
      fun columns => ((readRow columns).toOption.filter (·.1 = key)).map Prod.snd := by
    intro rows
    rw [valuesOf, List.filterMap_map]
    congr 1
    funext row
    rw [Function.comp_apply]
    rcases readRow row.2 with usable | ⟨k, value⟩
    · rfl
    · by_cases h : k = key
      · simp [Except.toOption, Option.filter_some, h]
      · simp [Except.toOption, Option.filter_some, h]
  rw [hColumns, hColumns]
  exact h.filterMap _

/-- A row is counted as a record if it can be used. -/
theorem records_pushRows (d : Draft) (rows : List (Nat × List String)) :
    (d.pushRows rows).records = d.records + (rows.map Prod.snd).countP fun columns => (readRow columns).toBool := by
  induction rows generalizing d with
  | nil => rfl
  | cons row rows ih =>
    have hStep : d.pushRows (row :: rows) = (d.push row.1 row.2).1.pushRows rows := rfl
    rw [hStep, ih, List.map_cons, List.countP_cons]
    unfold push
    cases readRow row.2 with
    | error usable => simp [Except.toBool]
    | ok pair => simp [record, Except.toBool]; omega

/-- A row that cannot be used is counted as malformed. -/
theorem malformed_pushRows (d : Draft) (rows : List (Nat × List String)) :
    (d.pushRows rows).malformed =
      d.malformed + (rows.map Prod.snd).countP fun columns => !(readRow columns).toBool := by
  induction rows generalizing d with
  | nil => rfl
  | cons row rows ih =>
    have hStep : d.pushRows (row :: rows) = (d.push row.1 row.2).1.pushRows rows := rfl
    rw [hStep, ih, List.map_cons, List.countP_cons]
    unfold push
    cases readRow row.2 with
    | error usable => simp [Except.toBool]; omega
    | ok pair => simp [record, Except.toBool]

theorem settled_pushRows_of_perm {rows rows' : List (Nat × List String)}
    (h : (rows.map Prod.snd).Perm (rows'.map Prod.snd)) :
    (empty.pushRows rows).settled = (empty.pushRows rows').settled := by
  have hNames : (empty.pushRows rows).names.map (fun _ u => u.settled) =
      (empty.pushRows rows').names.map fun _ u => u.settled := by
    apply Std.ExtTreeMap.ext_getElem?
    intro key
    rw [Std.ExtTreeMap.getElem?_map, Std.ExtTreeMap.getElem?_map, names_pushRows, names_pushRows]
    exact Usage.settled_ofValues_of_perm (valuesOf_perm h key)
  have hRecords : (empty.pushRows rows).records = (empty.pushRows rows').records := by
    rw [records_pushRows, records_pushRows, h.countP_eq]
  have hMalformed : (empty.pushRows rows).malformed = (empty.pushRows rows').malformed := by
    rw [malformed_pushRows, malformed_pushRows, h.countP_eq]
  unfold settled
  rw [hNames, hRecords, hMalformed]

/-! ## What a glossary is made of -/

theorem Admission.consider_settled (a : Admission) (key : String) (u : Usage) :
    a.consider key u.settled = a.consider key u := by
  cases h : u.agreed with
  | true => rw [Usage.settled_of_agreed h]
  | false =>
    rw [Usage.settled_of_not_agreed h]
    simp [consider, h]

theorem Admission.considerAll_settled (a : Admission) (names : List (String × Usage)) :
    a.considerAll (names.map fun p => (p.1, p.2.settled)) = a.considerAll names := by
  induction names generalizing a with
  | nil => rfl
  | cons p names ih =>
    rw [List.map_cons, considerAll, considerAll, consider_settled]
    congr 1
    funext a
    exact ih a

/-- The glossary of a draft, with all its reports, is that of what is settled. -/
theorem finish_settled (d : Draft) : d.settled.finish = d.finish := by
  have hNames : d.settled.names.toList = d.names.toList.map fun p => (p.1, p.2.settled) :=
    Std.ExtTreeMap.toList_map
  unfold finish
  rw [hNames, Admission.considerAll_settled]
  rfl

theorem finish_pushRows_of_perm {rows rows' : List (Nat × List String)}
    (h : (rows.map Prod.snd).Perm (rows'.map Prod.snd)) :
    (empty.pushRows rows).finish = (empty.pushRows rows').finish := by
  rw [← finish_settled, settled_pushRows_of_perm h, finish_settled]

/-- Rows pushed one after the other get their numbers in order. -/
theorem value_pushAll (d : Draft) (line : Nat) (rows : List (List String)) :
    (d.pushAll line rows).value = d.pushRows ((rows.zipIdx line).map Prod.swap) := by
  induction rows generalizing d line with
  | nil => rfl
  | cons columns rows ih => exact ih (d.push line columns).1 (line + 1)

theorem value_ofPairs_of_perm {pairs pairs' : List (String × String)} (h : pairs.Perm pairs') :
    (Glossary.ofPairs pairs).value = (Glossary.ofPairs pairs').value := by
  have hColumns : ∀ rows : List (List String), ((rows.zipIdx 1).map Prod.swap).map Prod.snd = rows := by
    intro rows
    rw [List.map_map]
    exact List.zipIdx_map_fst 1 rows
  unfold Glossary.ofPairs
  rw [Logged.value_bind, Logged.value_bind, value_pushAll, value_pushAll, finish_pushRows_of_perm]
  rw [hColumns, hColumns]
  exact h.map _

/-- The same rows in another order make the same glossary with the same counts, report the same on the way to it, and
    so split every schema alike. The numbers of the rows do not matter either; pairs are numbered in their order. -/
theorem rows_in_any_order :
    (∀ rows rows' : List (Nat × List String), (rows.map Prod.snd).Perm (rows'.map Prod.snd) →
      (empty.pushRows rows).finish.value.entries = (empty.pushRows rows').finish.value.entries ∧
      (empty.pushRows rows).finish.value.stats = (empty.pushRows rows').finish.value.stats ∧
      (empty.pushRows rows).finish.events = (empty.pushRows rows').finish.events ∧
      ∀ (s : Splitter) (schema : String),
        s.run (empty.pushRows rows).finish.value schema = s.run (empty.pushRows rows').finish.value schema) ∧
    ∀ pairs pairs' : List (String × String), pairs.Perm pairs' →
      (Glossary.ofPairs pairs).value = (Glossary.ofPairs pairs').value ∧
      ∀ (s : Splitter) (schema : String),
        s.run (Glossary.ofPairs pairs).value schema = s.run (Glossary.ofPairs pairs').value schema := by
  constructor
  · intro rows rows' h
    rw [finish_pushRows_of_perm h]
    exact ⟨rfl, rfl, rfl, fun _ _ => rfl⟩
  · intro pairs pairs' h
    rw [value_ofPairs_of_perm h]
    exact ⟨rfl, fun _ _ => rfl⟩

/-- Two names that clash once a space is gone, one whose rows disagree, one that is repeated, and a row without a clear
    name. -/
def mixedRows : List (Nat × List String) :=
  [(2, ["A B", "x"]), (3, ["K", "one"]), (4, ["AB", "y"]), (5, ["C D", "z"]), (6, ["K", "two"]), (7, ["broken"]),
    (8, ["C D", "z"]), (9, ["K", "one"])]

/-- The same rows backwards, and pairs backwards. -/
theorem mixedRows_backwards : (mixedRows.map Prod.snd).Perm (mixedRows.reverse.map Prod.snd) ∧
    (empty.pushRows mixedRows.reverse).finish.value.stats = ⟨7, 1, 2, 2⟩ ∧
    (empty.pushRows mixedRows.reverse).finish.events =
      [.spacesRemoved "A B" "AB", .collapsedClash "AB", .nameRepeated "C D" 2, .spacesRemoved "C D" "CD",
        .nameDropped "K" 3, .glossaryReady 1 2 1] ∧
    [("K", "one"), ("K", "two"), ("C D", "z")].Perm [("C D", "z"), ("K", "two"), ("K", "one")] ∧
    (Glossary.ofPairs [("C D", "z"), ("K", "two"), ("K", "one")]).value.toList = [("CD", "z")] := by
  have hRows : (mixedRows.map Prod.snd).Perm (mixedRows.reverse.map Prod.snd) :=
    (List.reverse_perm mixedRows).symm.map Prod.snd
  have hPairs : [("K", "one"), ("K", "two"), ("C D", "z")].Perm [("C D", "z"), ("K", "two"), ("K", "one")] :=
    (List.reverse_perm [("K", "one"), ("K", "two"), ("C D", "z")]).symm
  obtain ⟨_, hStats, hEvents, _⟩ := rows_in_any_order.1 mixedRows mixedRows.reverse hRows
  obtain ⟨hValue, _⟩ := rows_in_any_order.2 _ _ hPairs
  rw [← hStats, ← hEvents, ← hValue]
  exact ⟨hRows, by decide +kernel, by decide +kernel, hPairs, by decide +kernel⟩

end Draft

end Unbundle
