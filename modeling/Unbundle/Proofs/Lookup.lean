/-
  Unbundle.Proofs.Lookup — a tree of keys looked up at a place of a text, and how many keys it holds.

  Places are counted in bytes. A lookup at a place that is no cut between two characters finds nothing; at any other
  it finds the longest key given that starts what is left of the text.

  (1) `dropBytes?_eq_some_iff`. What is left behind a place, if the place is a cut.

  (2) `longest?_eq_some_iff`, `longest?_congr`. What is found is told by what a tree holds for each key, not by how
  the tree is built.

  (3) `size_ofList`. The counter of a tree stands at the number of different keys.

  (4) `getLast?_rowsOf_eq_some_iff`. Of the pairs with one key the last counts, whatever pairs stand between them.

  (5) `lookup_is_longest_prefix`. Lookups and counts, over every list of pairs, every text and every place.
-/

import Mathlib.Data.Finset.Card
import Unbundle.Proofs.KeyTree

namespace Unbundle

/-! ## (1) Places of a text -/

namespace Text

/-- The place `start` is a cut between two characters of the text, or one of its ends, and `rest` stands behind it. -/
def CutAt (text : List Char) (start : Nat) (rest : List Char) : Prop :=
  ∃ before, text = before ++ rest ∧ byteLength before = start

theorem dropBytes?_eq_some_iff {start : Nat} {text rest : List Char} :
    dropBytes? start text = some rest ↔ CutAt text start rest := by
  constructor
  · intro h
    induction text generalizing start with
    | nil =>
      cases start with
      | zero => exact ⟨[], Option.some.inj h, rfl⟩
      | succ n => cases h
    | cons c cs ih =>
      cases start with
      | zero => exact ⟨[], Option.some.inj h, rfl⟩
      | succ n =>
        rw [dropBytes?] at h
        split at h
        · rename_i hFits
          obtain ⟨before, rfl, hLength⟩ := ih h
          refine ⟨c :: before, rfl, ?_⟩
          rw [byteLength_cons]
          omega
        · cases h
  · rintro ⟨before, rfl, rfl⟩
    exact dropBytes?_append before rest

theorem CutAt.behind {text key rest : List Char} {start : Nat} (h : CutAt text start (key ++ rest)) :
    CutAt text (start + byteLength key) rest := by
  obtain ⟨before, rfl, rfl⟩ := h
  exact ⟨before ++ key, (List.append_assoc ..).symm, byteLength_append before key⟩

end Text

namespace KeyTree

open Text (CutAt byteLength)

variable {t : KeyTree}

/-! ## (2) What is found, by what is held -/

theorem longest?_eq_some_iff {cs : List Char} {found : Found} : t.longest? cs = some found ↔
    cs = found.key ++ found.rest ∧ t.get? found.key = some found.value ∧
      ∀ key, key <+: cs → (t.get? key).isSome → key.length ≤ found.key.length := by
  constructor
  · intro h
    exact ⟨(longest?_eq_append h).2, get?_of_longest?_eq_some h, fun key => length_le_of_longest?_eq_some h⟩
  · rintro ⟨hText, hHeld, hLongest⟩
    have hPrefix : found.key <+: cs := ⟨found.rest, hText.symm⟩
    rcases hFound : t.longest? cs with _ | other
    · rw [longest?_eq_none_iff.mp hFound _ hPrefix] at hHeld
      cases hHeld
    · -- two longest keys at the start of one text are the same
      obtain ⟨_, hOther⟩ := longest?_eq_append hFound
      have hOtherHeld := get?_of_longest?_eq_some hFound
      have hLe := hLongest other.key ⟨other.rest, hOther.symm⟩ (by rw [hOtherHeld]; rfl)
      have hGe := length_le_of_longest?_eq_some hFound hPrefix (by rw [hHeld]; rfl)
      obtain ⟨hKey, hRest⟩ := List.append_inj (hOther.symm.trans hText) (by omega)
      rw [hKey, hHeld] at hOtherHeld
      cases found
      cases other
      simp_all

/-- Trees that hold the same find the same. -/
theorem longest?_congr {t' : KeyTree} (h : ∀ key, t.get? key = t'.get? key) (cs : List Char) :
    t.longest? cs = t'.longest? cs := by
  apply Option.ext
  intro found
  rw [longest?_eq_some_iff, longest?_eq_some_iff]
  simp only [h]

theorem longestAt?_congr {t' : KeyTree} (h : ∀ key, t.get? key = t'.get? key) (text : String) (start : Nat) :
    t.longestAt? text start = t'.longestAt? text start := by
  unfold longestAt?
  simp only [longest?_congr h]

theorem longestAt?_eq_some_iff {text : String} {start stop : Nat} {value : String} :
    t.longestAt? text start = some (stop, value) ↔ ∃ rest found, CutAt text.toList start rest ∧
      t.longest? rest = some found ∧ start + byteLength found.key = stop ∧ found.value = value := by
  simp only [longestAt?, Option.bind_eq_bind, Option.bind_eq_some_iff, Text.dropBytes?_eq_some_iff, Option.pure_def,
    Option.some.injEq, Prod.mk.injEq]
  constructor
  · rintro ⟨rest, hCut, found, hFound, hStop, hValue⟩
    exact ⟨rest, found, hCut, hFound, hStop, hValue⟩
  · rintro ⟨rest, found, hCut, hFound, hStop, hValue⟩
    exact ⟨rest, hCut, found, hFound, hStop, hValue⟩

/-! ## (3) How many keys are held -/

/-- The keys of pairs, each of them once, less the empty one. -/
def keysOf (pairs : List (String × String)) : Finset String := (pairs.map Prod.fst).toFinset.erase ""

theorem mem_keysOf_iff {pairs : List (String × String)} {key : String} :
    key ∈ keysOf pairs ↔ key ≠ "" ∧ ∃ p ∈ pairs, p.1 = key := by
  simp [keysOf]

theorem keysOf_concat (pairs : List (String × String)) {p : String × String} (hKey : p.1 ≠ "") :
    keysOf (pairs ++ [p]) = Insert.insert p.1 (keysOf pairs) := by
  ext key
  rw [Finset.mem_insert, mem_keysOf_iff, mem_keysOf_iff]
  constructor
  · rintro ⟨hNonempty, q, hq, rfl⟩
    rcases List.mem_append.mp hq with hq | hq
    · exact .inr ⟨hNonempty, q, hq, rfl⟩
    · exact .inl (by rw [List.mem_singleton.mp hq])
  · rintro (rfl | ⟨hNonempty, q, hq, rfl⟩)
    · exact ⟨hKey, p, List.mem_append_right _ (List.mem_singleton_self p), rfl⟩
    · exact ⟨hNonempty, q, List.mem_append_left _ hq, rfl⟩

theorem keysOf_concat_empty (pairs : List (String × String)) {p : String × String} (hKey : p.1 = "") :
    keysOf (pairs ++ [p]) = keysOf pairs := by
  ext key
  simp only [mem_keysOf_iff, List.mem_append, List.mem_singleton, and_congr_right_iff]
  intro hNonempty
  constructor
  · rintro ⟨q, hq | rfl, rfl⟩
    · exact ⟨q, hq, rfl⟩
    · exact absurd hKey hNonempty
  · rintro ⟨q, hq, rfl⟩
    exact ⟨q, .inl hq, rfl⟩

/-- Pair by pair the counter of a tree stands at the number of keys so far: each counts once, and the empty key not at
    all. -/
theorem size_ofList (pairs : List (String × String)) : (ofList pairs).size = (keysOf pairs).card := by
  induction pairs using List.reverseRecOn with
  | nil => rfl
  | append_singleton pairs p ih =>
    rw [ofList_concat]
    by_cases hEmpty : p.1 = ""
    · rw [hEmpty, String.toList_empty, insert_empty, ih, keysOf_concat_empty pairs hEmpty]
    · have hKey : p.1.toList ≠ [] := by simpa using hEmpty
      have hHeld : ((ofList pairs).get? p.1.toList).isSome ↔ p.1 ∈ keysOf pairs := by
        rw [get?_ofList_isSome_iff, mem_keysOf_iff]
        simp only [String.toList_inj, ne_eq, hKey, hEmpty, not_false_eq_true, true_and]
      rw [size_insert _ hKey, ih, keysOf_concat pairs hEmpty]
      by_cases hOld : p.1 ∈ keysOf pairs
      · rw [if_pos (hHeld.mpr hOld), Finset.insert_eq_of_mem hOld, Nat.add_zero]
      · rw [if_neg fun h => hOld (hHeld.mp h), Finset.card_insert_of_notMem hOld]

theorem isEmpty_ofList_iff (pairs : List (String × String)) :
    (ofList pairs).isEmpty = true ↔ ∀ p ∈ pairs, p.1 = "" := by
  rw [isEmpty, beq_iff_eq, size_ofList, Finset.card_eq_zero, Finset.eq_empty_iff_forall_notMem]
  simp only [mem_keysOf_iff]
  constructor
  · intro h p hp
    by_contra hKey
    exact h p.1 ⟨hKey, p, hp, rfl⟩
  · rintro h key ⟨hKey, p, hp, rfl⟩
    exact hKey (h p hp)

/-! ## (4) The order of pairs -/

/-- The pairs with a key, in their order. -/
def rowsOf (pairs : List (String × String)) (key : String) : List (String × String) := pairs.filter (·.1 = key)

theorem getLast?_rowsOf_eq_some_iff (pairs : List (String × String)) (key value : String) :
    (rowsOf pairs key).getLast?.map Prod.snd = some value ↔ LastGiven pairs key.toList value := by
  induction pairs using List.reverseRecOn with
  | nil => simpa [rowsOf] using not_lastGiven_nil key.toList value
  | append_singleton pairs p ih =>
    rw [lastGiven_concat_iff, rowsOf, List.filter_append, ← rowsOf]
    by_cases hKey : p.1 = key
    · simp [hKey]
    · simp [hKey, String.toList_inj, ih]

/-- Pairs of different keys may be given in any order. -/
theorem get?_ofList_congr {pairs others : List (String × String)} (h : ∀ key, rowsOf pairs key = rowsOf others key)
    (key : List Char) : (ofList pairs).get? key = (ofList others).get? key := by
  by_cases hKey : key = []
  · rw [hKey, get?_empty, get?_empty]
  · apply Option.ext
    intro value
    have hText : key = (String.ofList key).toList := String.toList_ofList.symm
    rw [get?_ofList_eq_some_iff pairs hKey, get?_ofList_eq_some_iff others hKey, hText, ← getLast?_rowsOf_eq_some_iff,
      ← getLast?_rowsOf_eq_some_iff, h]

theorem keysOf_congr {pairs others : List (String × String)} (h : ∀ key, rowsOf pairs key = rowsOf others key) :
    keysOf pairs = keysOf others := by
  have hMem : ∀ (given : List (String × String)) (key : String), (∃ p ∈ given, p.1 = key) ↔ rowsOf given key ≠ [] := by
    intro given key
    simp [rowsOf]
  ext key
  rw [mem_keysOf_iff, mem_keysOf_iff, hMem, hMem, h]

/-! ## (5) Lookups -/

/-- A pair has this key, and it is not empty. -/
def Given (pairs : List (String × String)) (key : List Char) : Prop := key ≠ [] ∧ ∃ p ∈ pairs, p.1.toList = key

/-- The text starts with the key, and with no longer one. -/
def LongestGiven (pairs : List (String × String)) (text key : List Char) : Prop :=
  Given pairs key ∧ key <+: text ∧ ∀ other, Given pairs other → other <+: text → other.length ≤ key.length

theorem given_iff_isSome (pairs : List (String × String)) (key : List Char) :
    Given pairs key ↔ ((ofList pairs).get? key).isSome := (get?_ofList_isSome_iff pairs key).symm

theorem isSome_longestAt?_iff (pairs : List (String × String)) (text : String) (start : Nat) :
    ((ofList pairs).longestAt? text start).isSome = true ↔
      ∃ rest, CutAt text.toList start rest ∧ ∃ key, Given pairs key ∧ key <+: rest := by
  constructor
  · intro h
    obtain ⟨⟨stop, value⟩, hAt⟩ := Option.isSome_iff_exists.mp h
    obtain ⟨rest, found, hCut, hFound, _, _⟩ := longestAt?_eq_some_iff.mp hAt
    refine ⟨rest, hCut, found.key, ?_, found.rest, (longest?_eq_append hFound).2.symm⟩
    rw [given_iff_isSome, get?_of_longest?_eq_some hFound]
    rfl
  · rintro ⟨rest, hCut, key, hGiven, hPrefix⟩
    rw [given_iff_isSome] at hGiven
    rcases hFound : (ofList pairs).longest? rest with _ | found
    · rw [longest?_eq_none_iff.mp hFound key hPrefix] at hGiven
      cases hGiven
    · exact Option.isSome_iff_exists.mpr ⟨_, longestAt?_eq_some_iff.mpr ⟨rest, found, hCut, hFound, rfl, rfl⟩⟩

theorem longestAt?_ofList_eq_some_iff (pairs : List (String × String)) (text : String) (start stop : Nat)
    (value : String) : (ofList pairs).longestAt? text start = some (stop, value) ↔
      ∃ key after, CutAt text.toList start (key ++ after) ∧ LongestGiven pairs (key ++ after) key ∧
        LastGiven pairs key value ∧ stop = start + byteLength key := by
  rw [longestAt?_eq_some_iff]
  constructor
  · rintro ⟨rest, found, hCut, hFound, rfl, rfl⟩
    obtain ⟨hKey, rfl⟩ := longest?_eq_append hFound
    have hHeld := get?_of_longest?_eq_some hFound
    refine ⟨found.key, found.rest, hCut, ⟨?_, List.prefix_append .., fun other hOther hPrefix => ?_⟩, ?_, rfl⟩
    · rw [given_iff_isSome, hHeld]
      rfl
    · exact length_le_of_longest?_eq_some hFound hPrefix ((given_iff_isSome pairs other).mp hOther)
    · exact (get?_ofList_eq_some_iff pairs hKey found.value).mp hHeld
  · rintro ⟨key, after, hCut, ⟨hGiven, _, hLongest⟩, hLast, rfl⟩
    refine ⟨key ++ after, ⟨key, value, after⟩, hCut, longest?_eq_some_iff.mpr ⟨rfl, ?_, ?_⟩, rfl, rfl⟩
    · exact (get?_ofList_eq_some_iff pairs hGiven.1 value).mpr hLast
    · exact fun other hPrefix hHeld => hLongest other ((given_iff_isSome pairs other).mpr hHeld) hPrefix

/-- A lookup at a place of a text finds the longest key that starts what is left there, with the value given for it
    last, and where it ends. It finds nothing only at a place inside a character or past the end, or where no key
    starts. Every key counts once, and only the order of the pairs with one key matters. -/
theorem lookup_is_longest_prefix (pairs : List (String × String)) :
    (∀ text start, ((ofList pairs).longestAt? text start).isSome = true ↔
      ∃ rest, CutAt text.toList start rest ∧ ∃ key, Given pairs key ∧ key <+: rest) ∧
    (∀ text start stop value, (ofList pairs).longestAt? text start = some (stop, value) ↔
      ∃ key after, CutAt text.toList start (key ++ after) ∧ LongestGiven pairs (key ++ after) key ∧
        LastGiven pairs key value ∧ stop = start + byteLength key ∧ start < stop ∧ CutAt text.toList stop after) ∧
    (ofList pairs).size = (keysOf pairs).card ∧ ((ofList pairs).isEmpty = true ↔ ∀ p ∈ pairs, p.1 = "") ∧
    ∀ others, (∀ key, rowsOf pairs key = rowsOf others key) → (ofList pairs).size = (ofList others).size ∧
      ∀ text start, (ofList pairs).longestAt? text start = (ofList others).longestAt? text start := by
  refine ⟨isSome_longestAt?_iff pairs, fun text start stop value => ?_, size_ofList pairs, isEmpty_ofList_iff pairs,
    fun others hRows => ⟨?_, longestAt?_congr (get?_ofList_congr hRows)⟩⟩
  · rw [longestAt?_ofList_eq_some_iff]
    constructor
    · rintro ⟨key, after, hCut, hLongest, hLast, rfl⟩
      have hPos : 0 < byteLength key := Text.byteLength_pos hLongest.1.1
      exact ⟨key, after, hCut, hLongest, hLast, rfl, by omega, hCut.behind⟩
    · rintro ⟨key, after, hCut, hLongest, hLast, hStop, _, _⟩
      exact ⟨key, after, hCut, hLongest, hLast, hStop⟩
  · rw [size_ofList, size_ofList, keysOf_congr hRows]

/-- Two bytes make one character, and a place between them is no place. -/
example : (ofList [("é1", "e")]).longestAt? "aé1b" 1 = some (4, "e") ∧
    (ofList [("é1", "e"), ("1", "i")]).longestAt? "aé1b" 2 = none := by
  decide

/-- Three rows for two keys; the second key goes on with the first. -/
def twoKeys : List (String × String) := [("AB", "X"), ("ABCE", "Y"), ("AB", "Z")]

/-- The same rows, those for one key in their order. -/
def twoKeysAgain : List (String × String) := [("ABCE", "Y"), ("AB", "X"), ("AB", "Z")]

theorem rowsOf_twoKeys (key : String) : rowsOf twoKeys key = rowsOf twoKeysAgain key := by
  by_cases hKey : "AB" = key
  · subst hKey
    rfl
  · -- without the rows for `AB` one row is left on both sides
    simp [rowsOf, twoKeys, twoKeysAgain, List.filter_cons, hKey]

/-- Both lists make trees of two keys, which find the shorter key where the longer one breaks off. -/
theorem twoKeys_found : (∀ key, rowsOf twoKeys key = rowsOf twoKeysAgain key) ∧ (ofList twoKeysAgain).size = 2 ∧
    (ofList twoKeysAgain).longestAt? "éABCD" 2 = some (4, "Z") := by
  obtain ⟨_, _, _, _, hOrder⟩ := lookup_is_longest_prefix twoKeys
  obtain ⟨hSize, hFound⟩ := hOrder twoKeysAgain rowsOf_twoKeys
  exact ⟨rowsOf_twoKeys, hSize.symm.trans (by decide), (hFound "éABCD" 2).symm.trans (by decide)⟩

end KeyTree

end Unbundle
