/-
  Unbundle.Proofs.Distinct — lists in which nothing is repeated.

  - `nodup_eraseDups`, `eraseDups_sublist`, `eraseDups_of_nodup`: without its repetitions a list has none, in the order
    it had, and one that has none stays.
  - `encard_eq_length`: such a list counts what is in it.
-/

import Mathlib.Data.Set.Card

namespace Unbundle

variable {α : Type}

theorem nodup_eraseDups [BEq α] [LawfulBEq α] (l : List α) : l.eraseDups.Nodup := by
  match l with
  | [] => exact List.nodup_nil
  | a :: l =>
    rw [List.eraseDups_cons, List.nodup_cons]
    constructor
    · -- what is kept behind the first member differs from it
      intro h
      have hKept := (List.mem_filter.mp (List.mem_eraseDups.mp h)).2
      simp at hKept
    · exact nodup_eraseDups (l.filter fun b => !b == a)
termination_by l.length
decreasing_by exact Nat.lt_succ_of_le (List.length_filter_le _ l)

/-- What is kept stands in its order. -/
theorem eraseDups_sublist [BEq α] [LawfulBEq α] (l : List α) : l.eraseDups.Sublist l := by
  match l with
  | [] => exact List.Sublist.refl _
  | a :: l =>
    rw [List.eraseDups_cons]
    exact ((eraseDups_sublist (l.filter fun b => !b == a)).trans List.filter_sublist).cons_cons a
termination_by l.length
decreasing_by exact Nat.lt_succ_of_le (List.length_filter_le _ l)

theorem eraseDups_of_nodup [BEq α] [LawfulBEq α] {l : List α} (h : l.Nodup) : l.eraseDups = l := by
  induction l with
  | nil => rfl
  | cons a l ih =>
    obtain ⟨hFirst, hRest⟩ := List.nodup_cons.mp h
    have hKept : (l.filter fun b => !b == a) = l := by
      refine List.filter_eq_self.mpr fun b hb => ?_
      have hne : b ≠ a := fun hEq => hFirst (hEq ▸ hb)
      simpa using hne
    rw [List.eraseDups_cons, hKept, ih hRest]

theorem encard_eq_length [DecidableEq α] {l : List α} {s : Set α} (hDistinct : l.Nodup)
    (hMembers : ∀ a, a ∈ l ↔ a ∈ s) : s.encard = l.length := by
  have hSet : s = l.toFinset := by
    ext a
    rw [Finset.mem_coe, List.mem_toFinset, hMembers]
  rw [hSet, Set.encard_coe_eq_coe_finsetCard, List.toFinset_card_of_nodup hDistinct]

end Unbundle
