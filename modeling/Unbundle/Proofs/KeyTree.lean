/-
  Unbundle.Proofs.KeyTree — what a tree of keys holds, and what it finds.

  (1) `get?_insert`, `size_insert`. Setting a value changes what is held for that key and for no other; the key counts
  if nothing was held for it.

  (2) `get?_ofList_eq_some_iff`. A tree made from pairs holds for a key what the last pair with this key gave,
  whatever the order of the other pairs.

  (3) `get?_of_longest?_eq_some`, `length_le_of_longest?_eq_some`, `longest?_eq_none_iff`. What is found at the
  start of a text is the longest key held that the text starts with; nothing is found only if there is none.
-/

import Mathlib.Data.List.Induction
import Unbundle.KeyTree

namespace Unbundle

/-! ## (1) What is held after a value is set -/

namespace CharTree

theorem get?_path (c : Char) (value : String) (cs key : List Char) :
    (path c value cs).get? key = if key = c :: cs then some value else none := by
  induction cs generalizing c key with
  | nil =>
    rcases key with _ | ⟨d, ds⟩
    · simp
    · rcases ds with _ | ⟨e, ds⟩ <;> by_cases hd : d = c <;> simp [path, get?, hd]
  | cons e es ih =>
    rcases key with _ | ⟨d, ds⟩
    · simp
    · by_cases hd : d = c
      · subst hd
        rcases ds with _ | ⟨f, fs⟩
        · rw [path, get?_node_single]
          simp
        · rw [path, get?_node_self _ _ _ _ (List.cons_ne_nil f fs), ih]
          simp
      · rw [path, get?_node_of_ne hd, get?_nil, if_neg fun h => hd (List.cons.inj h).1]

/-- A value set for a key is held for it, and every other key keeps what was held. -/
theorem get?_insert (t : CharTree) {key : List Char} (hKey : key ≠ []) (value : String) (other : List Char) :
    (t.insert key value).get? other = if other = key then some value else t.get? other := by
  induction t generalizing key other with
  | nil =>
    obtain ⟨c, cs, rfl⟩ := List.exists_cons_of_ne_nil hKey
    rw [insert, get?_path, get?_nil]
  | node d value? below beside ihBelow ihBeside =>
    obtain ⟨c, cs, rfl⟩ := List.exists_cons_of_ne_nil hKey
    rcases other with _ | ⟨e, es⟩
    · simp
    unfold insert
    by_cases hc : c = d
    · subst hc
      rw [if_pos rfl]
      by_cases he : e = c
      · subst he
        rcases cs with _ | ⟨f, fs⟩ <;> rcases es with _ | ⟨g, gs⟩
        · simp [get?_node_single]
        · simp [get?_node_self]
        · simp [get?_node_single]
        · simp only [get?_node_self _ _ _ _ (List.cons_ne_nil g gs), List.cons.injEq, true_and]
          rw [ihBelow (List.cons_ne_nil f fs)]
          simp
      · rw [if_neg fun h => he (List.cons.inj h).1, get?_node_of_ne he]
        cases cs <;> exact get?_node_of_ne he ..
    · rw [if_neg hc]
      by_cases he : e = d
      · subst he
        rw [if_neg fun h => hc (List.cons.inj h).1.symm]
        rcases es with _ | ⟨g, gs⟩
        · rw [get?_node_single, get?_node_single]
        · rw [get?_node_self _ _ _ _ (List.cons_ne_nil g gs), get?_node_self _ _ _ _ (List.cons_ne_nil g gs)]
      · rw [get?_node_of_ne he, get?_node_of_ne he, ihBeside (List.cons_ne_nil c cs)]

end CharTree

namespace KeyTree

@[simp] theorem get?_empty (t : KeyTree) : t.get? [] = none := CharTree.get?_empty t.root

/-- A value set for a key is held for it, and every other key keeps what was held. -/
theorem get?_insert (t : KeyTree) {key : List Char} (hKey : key ≠ []) (value : String) (other : List Char) :
    (t.insert key value).get? other = if other = key then some value else t.get? other :=
  t.root.get?_insert hKey value other

/-- A key that was held before does not count again. -/
theorem size_insert (t : KeyTree) {key : List Char} (hKey : key ≠ []) (value : String) :
    (t.insert key value).size = t.size + if (t.get? key).isSome then 0 else 1 := by
  rw [size_eq, size_eq]
  exact t.root.count_insert hKey value

@[simp] theorem insert_empty (t : KeyTree) (value : String) : t.insert [] value = t := by
  cases t
  simp [insert]

/-! ## (2) The tree of a list of pairs -/

/-- The last of the pairs with this key gives this value. -/
def LastGiven (pairs : List (String × String)) (key : List Char) (value : String) : Prop :=
  ∃ before p after, pairs = before ++ p :: after ∧ p.1.toList = key ∧ p.2 = value ∧ ∀ q ∈ after, q.1.toList ≠ key

theorem not_lastGiven_nil (key : List Char) (value : String) : ¬ LastGiven [] key value := by
  intro ⟨before, p, after, h, _⟩
  exact List.append_ne_nil_of_right_ne_nil before (List.cons_ne_nil p after) h.symm

theorem lastGiven_concat_iff (pairs : List (String × String)) (p : String × String) (key : List Char) (value : String) :
    LastGiven (pairs ++ [p]) key value ↔ if p.1.toList = key then p.2 = value else LastGiven pairs key value := by
  constructor
  · intro ⟨before, q, after, hPairs, hKey, hValue, hAfter⟩
    rcases List.eq_nil_or_concat after with rfl | ⟨after, r, rfl⟩
    · obtain ⟨_, rfl⟩ := List.append_singleton_inj.mp hPairs
      rw [if_pos hKey]
      exact hValue
    · rw [List.concat_eq_append, ← List.cons_append, ← List.append_assoc] at hPairs
      obtain ⟨rfl, rfl⟩ := List.append_singleton_inj.mp hPairs
      rw [List.concat_eq_append] at hAfter
      rw [if_neg (hAfter p (List.mem_append_right _ (List.mem_singleton.mpr rfl)))]
      exact ⟨before, q, after, rfl, hKey, hValue, fun r hr => hAfter r (List.mem_append_left _ hr)⟩
  · intro h
    split at h
    · rename_i hKey
      exact ⟨pairs, p, [], rfl, hKey, h, fun q hq => absurd hq List.not_mem_nil⟩
    · rename_i hKey
      obtain ⟨before, q, after, rfl, hq, hValue, hAfter⟩ := h
      refine ⟨before, q, after ++ [p], by rw [List.append_assoc, List.cons_append], hq, hValue, fun r hr => ?_⟩
      rcases List.mem_append.mp hr with hr | hr
      · exact hAfter r hr
      · rw [List.mem_singleton.mp hr]
        exact hKey

theorem exists_lastGiven_iff (pairs : List (String × String)) (key : List Char) :
    (∃ value, LastGiven pairs key value) ↔ ∃ p ∈ pairs, p.1.toList = key := by
  constructor
  · intro ⟨value, before, p, after, hPairs, hKey, _⟩
    exact ⟨p, hPairs ▸ List.mem_append_right before List.mem_cons_self, hKey⟩
  · intro ⟨p, hp, hKey⟩
    induction pairs using List.reverseRecOn with
    | nil => cases hp
    | append_singleton pairs q ih =>
      by_cases hq : q.1.toList = key
      · exact ⟨q.2, (lastGiven_concat_iff ..).mpr (by rw [if_pos hq])⟩
      · rcases List.mem_append.mp hp with hp | hp
        · obtain ⟨value, h⟩ := ih hp
          exact ⟨value, (lastGiven_concat_iff ..).mpr (by rw [if_neg hq]; exact h)⟩
        · rw [← List.mem_singleton.mp hp] at hq
          exact absurd hKey hq

theorem ofList_concat (pairs : List (String × String)) (p : String × String) :
    ofList (pairs ++ [p]) = (ofList pairs).insert p.1.toList p.2 := by
  rw [ofList, List.foldl_append, List.foldl_cons, List.foldl_nil, ← ofList]

/-- The tree of a list of pairs holds for a key what the last pair with this key gives. -/
theorem get?_ofList_eq_some_iff (pairs : List (String × String)) {key : List Char} (hKey : key ≠ []) (value : String) :
    (ofList pairs).get? key = some value ↔ LastGiven pairs key value := by
  induction pairs using List.reverseRecOn with
  | nil =>
    constructor
    · intro h
      cases (CharTree.get?_nil key).symm.trans h
    · intro h
      exact absurd h (not_lastGiven_nil key value)
  | append_singleton pairs p ih =>
    rw [ofList_concat, lastGiven_concat_iff]
    by_cases hEmpty : p.1.toList = []
    · rw [hEmpty, insert_empty, if_neg (Ne.symm hKey), ih]
    · rw [get?_insert _ hEmpty]
      by_cases hp : p.1.toList = key
      · rw [if_pos hp.symm, if_pos hp, Option.some.injEq]
      · rw [if_neg (Ne.symm hp), if_neg hp, ih]

theorem LastGiven.unique {pairs : List (String × String)} {key : List Char} (hKey : key ≠ []) {value other : String}
    (h : LastGiven pairs key value) (h' : LastGiven pairs key other) : value = other :=
  Option.some.inj
    (((get?_ofList_eq_some_iff pairs hKey value).mpr h).symm.trans ((get?_ofList_eq_some_iff pairs hKey other).mpr h'))

theorem get?_ofList_isSome_iff (pairs : List (String × String)) (key : List Char) :
    ((ofList pairs).get? key).isSome ↔ key ≠ [] ∧ ∃ p ∈ pairs, p.1.toList = key := by
  by_cases hKey : key = []
  · simp [hKey]
  · simp only [Option.isSome_iff_exists, get?_ofList_eq_some_iff pairs hKey, exists_lastGiven_iff, ne_eq, hKey,
      not_false_eq_true, true_and]

end KeyTree

/-! ## (3) What is found at the start of a text -/

variable {cs key : List Char} {found : KeyTree.Found}

namespace CharTree

variable {t : CharTree}

/-- Nothing held starts a text that begins with the character of a node, if neither its own key is held nor any
    that goes on below it. -/
theorem forall_get?_node_iff (c : Char) (value? : Option String) (below beside : CharTree) (cs : List Char) :
    (∀ key, key <+: c :: cs → (node c value? below beside).get? key = none) ↔
      value? = none ∧ ∀ key, key <+: cs → below.get? key = none := by
  constructor
  · intro h
    refine ⟨?_, fun key hKey => ?_⟩
    · rw [← get?_node_single c value? below beside]
      exact h [c] (List.cons_prefix_cons.mpr ⟨rfl, List.nil_prefix⟩)
    · by_cases hEmpty : key = []
      · rw [hEmpty, get?_empty]
      · rw [← get?_node_self c value? below beside hEmpty]
        exact h (c :: key) (List.cons_prefix_cons.mpr ⟨rfl, hKey⟩)
  · intro ⟨hValue, hBelow⟩ key hKey
    rcases List.prefix_cons_iff.mp hKey with rfl | ⟨key, rfl, hRest⟩
    · rw [get?_empty]
    · by_cases hEmpty : key = []
      · rw [hEmpty, get?_node_single, hValue]
      · rw [get?_node_self c value? below beside hEmpty, hBelow key hRest]

theorem longest?_eq_none_iff : t.longest? cs = none ↔ ∀ key, key <+: cs → t.get? key = none := by
  induction t generalizing cs with
  | nil => exact ⟨fun _ key _ => get?_nil key, fun _ => by cases cs <;> rfl⟩
  | node d value? below beside ihBelow ihBeside =>
    rcases cs with _ | ⟨c, cs⟩
    · refine ⟨fun _ key h => ?_, fun _ => rfl⟩
      rw [List.prefix_nil.mp h, get?_empty]
    · unfold longest?
      by_cases hc : c = d
      · subst hc
        rw [if_pos rfl, forall_get?_node_iff, ← ihBelow]
        rcases below.longest? cs with _ | found <;> simp
      · rw [if_neg hc, ihBeside]
        refine forall_congr' fun key => imp_congr_right fun hKey => ?_
        rcases List.prefix_cons_iff.mp hKey with rfl | ⟨key, rfl, _⟩
        · rw [get?_empty, get?_empty]
        · rw [get?_node_of_ne hc]

theorem get?_of_longest?_eq_some (h : t.longest? cs = some found) : t.get? found.key = some found.value := by
  induction t generalizing cs found with
  | nil => simp [longest?] at h
  | node d value? below beside ihBelow ihBeside =>
    rcases cs with _ | ⟨c, cs⟩
    · cases h
    · unfold longest? at h
      split at h
      · rename_i hc
        subst hc
        split at h
        · rename_i inner hInner
          cases h
          rw [get?_node_self _ _ _ _ (longest?_eq_append hInner).1]
          exact ihBelow hInner
        · obtain ⟨value, hValue, rfl⟩ := Option.map_eq_some_iff.mp h
          rw [get?_node_single, hValue]
      · rename_i hc
        have hBeside := ihBeside h
        obtain ⟨hKey, hSplit⟩ := longest?_eq_append h
        obtain ⟨e, es, hFound⟩ := List.exists_cons_of_ne_nil hKey
        rw [hFound] at hSplit hBeside ⊢
        obtain ⟨rfl, _⟩ := List.cons.inj hSplit
        rw [get?_node_of_ne hc, hBeside]

/-- No key held that starts the text is longer than the one found. -/
theorem length_le_of_longest?_eq_some (h : t.longest? cs = some found) (hPrefix : key <+: cs)
    (hHeld : (t.get? key).isSome) : key.length ≤ found.key.length := by
  induction t generalizing cs key found with
  | nil => simp at hHeld
  | node d value? below beside ihBelow ihBeside =>
    rcases key with _ | ⟨c, key⟩
    · exact Nat.zero_le _
    rcases cs with _ | ⟨e, cs⟩
    · cases h
    obtain ⟨rfl, hRest⟩ := List.cons_prefix_cons.mp hPrefix
    unfold longest? at h
    split at h
    · rename_i hc
      subst hc
      by_cases hEmpty : key = []
      · subst hEmpty
        split at h
        · cases h
          exact Nat.succ_le_succ (Nat.zero_le _)
        · obtain ⟨value, _, rfl⟩ := Option.map_eq_some_iff.mp h
          exact Nat.le_refl _
      · rw [get?_node_self c value? below beside hEmpty] at hHeld
        split at h
        · rename_i inner hInner
          cases h
          exact Nat.succ_le_succ (ihBelow hInner hRest hHeld)
        · rename_i hNone
          rw [longest?_eq_none_iff.mp hNone key hRest] at hHeld
          cases hHeld
    · rename_i hc
      rw [get?_node_of_ne hc] at hHeld
      exact ihBeside h hPrefix hHeld

/-- In a tree that holds no key nothing is found. -/
theorem longest?_of_count (h : t.count = 0) : t.longest? cs = none := by
  induction t generalizing cs with
  | nil => cases cs <;> rfl
  | node d value? below beside ihBelow ihBeside =>
    rcases cs with _ | ⟨c, cs⟩
    · rfl
    · unfold count at h
      have hValue : value? = none := by
        rcases value? with _ | value
        · rfl
        · simp at h
      unfold longest?
      rw [ihBelow (by omega), ihBeside (by omega), hValue]
      split <;> rfl

end CharTree

namespace KeyTree

variable {t : KeyTree}

theorem longest?_eq_none_iff : t.longest? cs = none ↔ ∀ key, key <+: cs → t.get? key = none :=
  CharTree.longest?_eq_none_iff

theorem get?_of_longest?_eq_some (h : t.longest? cs = some found) : t.get? found.key = some found.value :=
  CharTree.get?_of_longest?_eq_some h

theorem length_le_of_longest?_eq_some (h : t.longest? cs = some found) (hPrefix : key <+: cs)
    (hHeld : (t.get? key).isSome) : key.length ≤ found.key.length :=
  CharTree.length_le_of_longest?_eq_some h hPrefix hHeld

/-- The counter is never wrong, so nothing is found where it stands at zero. -/
theorem longest?_of_isEmpty (h : t.isEmpty) : t.longest? cs = none := by
  have hSize : t.size = 0 := by simpa [isEmpty] using h
  exact CharTree.longest?_of_count (t.size_eq.symm.trans hSize)

/-- A longer key that breaks off late does not hide a shorter one. -/
example : (ofList [("AB", "X"), ("ABCE", "Y")]).longest? "ABCD".toList = some ⟨['A', 'B'], "X", ['C', 'D']⟩ := by
  decide

end KeyTree

end Unbundle
