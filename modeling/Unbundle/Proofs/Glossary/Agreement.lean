/-
  Unbundle.Proofs.Glossary.Agreement — what a draft knows of the rows it was given.

  A row gives a name a clear name if both are there and neither is empty. A name agrees on a clear name if some
  row gives it, and no row gives another. `names_pushRows`: the draft holds, for every name, the summary of
  the clear names given to it, and nothing else.
-/

import Mathlib.Data.List.Induction
import Unbundle.Glossary.Draft

namespace Unbundle

/-- The columns give a name a clear name. -/
def Gives (columns : List String) (key value : String) : Prop :=
  key ≠ "" ∧ value ≠ "" ∧ ∃ more, columns = key :: value :: more

/-- Some row gives the name that clear name, and every row that gives it one gives this one. -/
def Agreed (rows : List (Nat × List String)) (key value : String) : Prop :=
  (∃ row ∈ rows, Gives row.2 key value) ∧ ∀ row ∈ rows, ∀ other, Gives row.2 key other → other = value

theorem Gives.head?_eq {columns : List String} {key value : String} (h : Gives columns key value) :
    columns.head? = some key := by
  obtain ⟨_, _, more, rfl⟩ := h
  rfl

/-- What rows that give clear names in this order say of a name. -/
def Usage.ofValues : List String → Option Usage
  | [] => none
  | value :: rest => some ⟨value, rest.length + 1, rest.all (· == value)⟩

theorem Usage.ofValues_concat (values : List String) (value : String) : ofValues (values ++ [value]) =
    match ofValues values with
    | none => some ⟨value, 1, true⟩
    | some u => some (u.again value) := by
  cases values with
  | nil => rfl
  | cons first rest => simp [ofValues, again, Bool.beq_comm]

namespace Draft

/-- The draft with more rows; rows that cannot be used change the counts only. -/
def pushRows (d : Draft) (rows : List (Nat × List String)) : Draft :=
  rows.foldl (fun d row => (d.push row.1 row.2).1) d

theorem readRow_eq_ok_iff {columns : List String} {key value : String} :
    readRow columns = .ok (key, value) ↔ Gives columns key value := by
  unfold readRow Gives
  split
  · simp
  · simp
  · rename_i k w more
    by_cases hk : k = ""
    · simp only [hk, if_true, reduceCtorEq, List.cons.injEq, false_iff, not_and, not_exists]
      rintro hne _ more rfl
      exact absurd rfl hne
    by_cases hw : w = ""
    · simp only [hk, hw, if_true, if_false, reduceCtorEq, List.cons.injEq, false_iff, not_and, not_exists]
      rintro _ hne more _ rfl
      exact absurd rfl hne
    · simp only [hk, hw, if_false, Except.ok.injEq, Prod.mk.injEq, List.cons.injEq]
      constructor
      · rintro ⟨rfl, rfl⟩
        exact ⟨hk, hw, more, rfl, rfl, rfl⟩
      · rintro ⟨_, _, _, rfl, rfl, _⟩
        exact ⟨rfl, rfl⟩

/-- The clear names that rows give a name, in order. -/
def valuesOf (rows : List (Nat × List String)) (key : String) : List String :=
  rows.filterMap fun row =>
    match readRow row.2 with
    | .ok (k, value) => if k = key then some value else none
    | .error _ => none

theorem mem_valuesOf_iff {rows : List (Nat × List String)} {key value : String} :
    value ∈ valuesOf rows key ↔ ∃ row ∈ rows, Gives row.2 key value := by
  simp only [valuesOf, List.mem_filterMap, ← readRow_eq_ok_iff]
  refine exists_congr fun row => and_congr_right fun _ => ?_
  cases readRow row.2 with
  | error usable => simp
  | ok pair => simp [Prod.ext_iff]

theorem valuesOf_append (rows more : List (Nat × List String)) (key : String) :
    valuesOf (rows ++ more) key = valuesOf rows key ++ valuesOf more key :=
  List.filterMap_append

theorem names_push (d : Draft) (row : Nat × List String) (key : String) : (d.push row.1 row.2).1.names[key]? =
    match readRow row.2 with
    | .ok (k, value) =>
      if k = key then
        match d.names[key]? with
        | none => some ⟨value, 1, true⟩
        | some u => some (u.again value)
      else d.names[key]?
    | .error _ => d.names[key]? := by
  unfold push
  cases readRow row.2 with
  | error usable => rfl
  | ok pair =>
    obtain ⟨k, value⟩ := pair
    simp only [record, Std.ExtTreeMap.getElem?_alter, Std.LawfulEqCmp.compare_eq_iff_eq]
    split
    · rename_i hk
      subst hk
      cases d.names[k]? <;> rfl
    · rfl

theorem names_pushRows (rows : List (Nat × List String)) (key : String) :
    (empty.pushRows rows).names[key]? = Usage.ofValues (valuesOf rows key) := by
  induction rows using List.reverseRecOn with
  | nil => simp [pushRows, empty, valuesOf, Usage.ofValues]
  | append_singleton rows row ih =>
    rw [pushRows, List.foldl_append, List.foldl_cons, List.foldl_nil, ← pushRows, names_push, ih, valuesOf_append]
    cases hr : readRow row.2 with
    | error usable => simp [valuesOf, hr]
    | ok pair =>
      by_cases hk : pair.1 = key
      · have hv : valuesOf [row] key = [pair.2] := by simp [valuesOf, hr, hk]
        rw [hv, Usage.ofValues_concat]
        exact if_pos hk
      · simp [valuesOf, hr, hk]

/-- A name whose rows agree is held as one that agrees, with its clear name. -/
theorem agreed_iff {rows : List (Nat × List String)} {key value : String} : Agreed rows key value ↔
    ∃ u, (empty.pushRows rows).names[key]? = some u ∧ u.agreed = true ∧ u.value = value := by
  have hall : Agreed rows key value ↔ value ∈ valuesOf rows key ∧ ∀ other ∈ valuesOf rows key, other = value := by
    simp only [Agreed, mem_valuesOf_iff]
    exact and_congr_right fun _ =>
      ⟨fun h other ⟨row, hrow, hg⟩ => h row hrow other hg, fun h row hrow other hg => h other ⟨row, hrow, hg⟩⟩
  rw [hall, names_pushRows]
  cases valuesOf rows key with
  | nil => simp [Usage.ofValues]
  | cons first rest =>
    simp only [Usage.ofValues, Option.some.injEq, exists_eq_left', List.all_eq_true, beq_iff_eq, List.mem_cons,
      forall_eq_or_imp]
    constructor
    · rintro ⟨_, rfl, h⟩
      exact ⟨h, rfl⟩
    · rintro ⟨h, rfl⟩
      exact ⟨.inl rfl, rfl, h⟩

end Draft

end Unbundle
