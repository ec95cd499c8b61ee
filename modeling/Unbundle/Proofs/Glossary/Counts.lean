/-
  Unbundle.Proofs.Glossary.Counts — what is counted while a glossary is made.

  Rows are counted when they are pushed, names when the draft is finished, and texts at which names clash at the very
  end, when they are taken out. A text may clash many times on the way, and counts once.

  - `push_of_gives`, `push_of_not_usable`: a row is recorded, or counted and refused.
  - `counts_considerAll`: what the names of a draft add to the counts.
  - `inconsistent_foldl_takeOut`: what the texts add that are taken out.
  - `encard_names`: names counted in a draft are as many as there are.
  - `counts_exact`: all counts, said of the rows alone.
-/

import Unbundle.Proofs.Distinct
import Unbundle.Proofs.Glossary.Admission
import Unbundle.Proofs.Glossary.Order

namespace Unbundle

/-! ## Rows -/

/-- A row with a name and a clear name. -/
def IsUsable (columns : List String) : Prop := ∃ key value, Gives columns key value

/-- How many columns can be used: of the first two, those in front of an empty one. -/
def usableColumns (columns : List String) : Nat := ((columns.take 2).takeWhile (· ≠ "")).length

namespace Draft

theorem readRow_eq_error_iff {columns : List String} {usable : Nat} :
    readRow columns = .error usable ↔ ¬ IsUsable columns ∧ usable = usableColumns columns := by
  have hUsable : IsUsable columns ↔ ∃ key value, readRow columns = .ok (key, value) := by
    simp only [IsUsable, readRow_eq_ok_iff]
  rw [hUsable]
  unfold readRow usableColumns
  split
  · simp [eq_comm]
  · rename_i key
    by_cases hk : key = ""
    · simp [hk, eq_comm]
    · simp [hk, eq_comm]
  · rename_i key value more
    by_cases hk : key = ""
    · simp [hk, eq_comm]
    · by_cases hv : value = ""
      · simp [hk, hv, eq_comm]
      · simp [hk, hv]

theorem toBool_readRow_iff {columns : List String} : (readRow columns).toBool = true ↔ IsUsable columns := by
  unfold IsUsable
  simp only [← readRow_eq_ok_iff]
  rcases readRow columns with usable | pair
  · simp [Except.toBool]
  · simp [Except.toBool, Prod.ext_iff]

end Draft

instance (columns : List String) : Decidable (IsUsable columns) := decidable_of_iff _ Draft.toBool_readRow_iff

namespace Draft

theorem push_of_gives (d : Draft) (line : Nat) {columns : List String} {key value : String}
    (h : Gives columns key value) : d.push line columns = (d.record key value, none) := by
  rw [push, readRow_eq_ok_iff.mpr h]

/-- A row that cannot be used is counted, and changes nothing else. -/
theorem push_of_not_usable (d : Draft) (line : Nat) {columns : List String} (h : ¬ IsUsable columns) :
    d.push line columns =
      ({ d with malformed := d.malformed + 1 }, some (.malformedRow line (usableColumns columns))) := by
  rw [push, readRow_eq_error_iff.mpr ⟨h, rfl⟩]

/-! ## Names -/

namespace Admission

/-- Bringing a clear name to a text counts nothing. -/
theorem counts_bring (a : Admission) (text value : String) :
    (a.bring text value).value.inconsistent = a.inconsistent ∧
      (a.bring text value).value.normalized = a.normalized := by
  unfold bring
  split
  · exact ⟨rfl, rfl⟩
  · split
    · exact ⟨rfl, rfl⟩
    · split
      · exact ⟨rfl, rfl⟩
      · exact ⟨rfl, rfl⟩

theorem value_considerAll_cons (a : Admission) (p : String × Usage) (names : List (String × Usage)) :
    (a.considerAll (p :: names)).value = ((a.consider p.1 p.2).value.considerAll names).value := rfl

/-- Names whose rows disagree are counted, and of the others those with spaces. -/
theorem counts_considerAll (a : Admission) (names : List (String × Usage)) :
    (a.considerAll names).value.inconsistent = a.inconsistent + names.countP (fun p => !p.2.agreed) ∧
      (a.considerAll names).value.normalized =
        a.normalized + names.countP fun p => p.2.agreed && decide (' ' ∈ p.1.toList) := by
  induction names generalizing a with
  | nil => exact ⟨rfl, rfl⟩
  | cons p names ih =>
    obtain ⟨hInconsistent, hNormalized⟩ := ih (a.consider p.1 p.2).value
    rw [value_considerAll_cons, hInconsistent, hNormalized, value_consider, List.countP_cons, List.countP_cons]
    cases hAgreed : p.2.agreed with
    | true => simp [counts_bring]; omega
    | false => simp; omega

/-- Of texts that are taken out, those count that were there, each of them once. -/
theorem inconsistent_foldl_takeOut (texts : List String) (a : Admission) : (texts.foldl takeOut a).inconsistent =
    a.inconsistent + (texts.toFinset.filter fun text => a.entries[text]?.isSome).card := by
  induction texts generalizing a with
  | nil => rfl
  | cons text texts ih =>
    rw [List.foldl_cons, ih, List.toFinset_cons, Finset.filter_insert]
    simp only [entries_takeOut]
    unfold takeOut
    cases hHeld : a.entries[text]? with
    | none =>
      -- nothing to take out, now or later
      have hSame : ∀ other, (if other = text then none else a.entries[other]?) = a.entries[other]? := by
        intro other
        by_cases h : other = text
        · rw [if_pos h, h, hHeld]
        · rw [if_neg h]
      simp [hSame]
    | some value =>
      have hRest : (texts.toFinset.filter fun other => (if other = text then none else a.entries[other]?).isSome) =
          (texts.toFinset.filter fun other => a.entries[other]?.isSome).erase text := by
        ext other
        by_cases h : other = text
        · simp [h]
        · simp [h]
      simp only [hRest, Option.isSome_some, if_true]
      rw [← Finset.card_erase_add_one (Finset.mem_insert_self text _), Finset.erase_insert_eq_erase]
      omega

theorem normalized_foldl_takeOut (texts : List String) (a : Admission) :
    (texts.foldl takeOut a).normalized = a.normalized := by
  have hOne : ∀ (a : Admission) (text : String), (a.takeOut text).normalized = a.normalized := by
    intro a text
    unfold takeOut
    split <;> rfl
  induction texts generalizing a with
  | nil => rfl
  | cons text texts ih => rw [List.foldl_cons, ih, hOne]

theorem blank_not_mem_considerAll {a : Admission} (h : "" ∉ a.clashes) (names : List (String × Usage)) :
    "" ∉ (a.considerAll names).value.clashes := by
  induction names generalizing a with
  | nil => exact h
  | cons p names ih =>
    rw [value_considerAll_cons]
    apply ih
    rw [value_consider]
    split
    · by_cases hBlank : "" = collapse p.1
      · rw [bring, if_pos hBlank.symm]
        exact h
      · rwa [mem_clashes_bring_of_ne _ _ hBlank]
    · exact h

end Admission

/-- Names are counted once, since a draft holds them once. -/
theorem encard_names {s : Set String} (names : Std.ExtTreeMap String Usage) (p : String × Usage → Bool)
    (h : ∀ key, key ∈ s ↔ ∃ u, names[key]? = some u ∧ p (key, u) = true) : s.encard = names.toList.countP p := by
  have hAll : (names.toList.map Prod.fst).Nodup := by
    rw [Std.ExtTreeMap.map_fst_toList_eq_keys]
    exact Std.ExtTreeMap.nodup_keys
  have hKeys : ((names.toList.filter p).map Prod.fst).Nodup := hAll.sublist (List.filter_sublist.map Prod.fst)
  rw [encard_eq_length hKeys, List.length_map, List.countP_eq_length_filter]
  intro key
  simp [h, Std.ExtTreeMap.mem_toList_iff_getElem?_eq_some]

/-! ## What is counted -/

/-- Names that rows give two clear names. -/
def disputed (rows : List (Nat × List String)) : Set String :=
  {key | ∃ row ∈ rows, ∃ row' ∈ rows, ∃ value value', Gives row.2 key value ∧ Gives row'.2 key value' ∧ value ≠ value'}

/-- Names with spaces whose rows agree. -/
def spaced (rows : List (Nat × List String)) : Set String := {key | ' ' ∈ key.toList ∧ ∃ value, Agreed rows key value}

/-- Texts, other than the empty one, that names whose rows agree come to without their spaces. -/
def reached (rows : List (Nat × List String)) : Set String :=
  {text | text ≠ "" ∧ ∃ key value, collapse key = text ∧ Agreed rows key value}

/-- Those that such names bring different clear names to. -/
def clashing (rows : List (Nat × List String)) : Set String :=
  {text | text ≠ "" ∧ ∃ key key' value value', collapse key = text ∧ collapse key' = text ∧ Agreed rows key value ∧
    Agreed rows key' value' ∧ value ≠ value'}

variable (rows : List (Nat × List String))

theorem clashing_subset_reached : clashing rows ⊆ reached rows := by
  rintro text ⟨hText, key, _, value, _, hKey, _, hAgreed, _⟩
  exact ⟨hText, key, value, hKey, hAgreed⟩

/-- Two clear names are given to a name if its rows disagree. -/
theorem mem_disputed_iff {key : String} : key ∈ disputed rows ↔
    ∃ u, (empty.pushRows rows).names[key]? = some u ∧ (!u.agreed) = true := by
  have hValues : key ∈ disputed rows ↔ ∃ value ∈ valuesOf rows key, ∃ value' ∈ valuesOf rows key, value ≠ value' := by
    simp only [disputed, Set.mem_ofPred_eq, mem_valuesOf_iff]
    constructor
    · rintro ⟨row, hRow, row', hRow', value, value', hGives, hGives', hne⟩
      exact ⟨value, ⟨row, hRow, hGives⟩, value', ⟨row', hRow', hGives'⟩, hne⟩
    · rintro ⟨value, ⟨row, hRow, hGives⟩, value', ⟨row', hRow', hGives'⟩, hne⟩
      exact ⟨row, hRow, row', hRow', value, value', hGives, hGives', hne⟩
  rw [hValues, names_pushRows]
  rcases valuesOf rows key with _ | ⟨first, rest⟩
  · simp [Usage.ofValues]
  · have hAll := @Usage.all_eq_first_iff first rest
    simp only [Usage.ofValues, Option.some.injEq, exists_eq_left', Bool.not_eq_true', ← Bool.not_eq_true, hAll]
    push Not
    rfl

theorem mem_spaced_iff {key : String} : key ∈ spaced rows ↔ ∃ u, (empty.pushRows rows).names[key]? = some u ∧
    (u.agreed && decide (' ' ∈ key.toList)) = true := by
  simp only [spaced, Set.mem_ofPred_eq, agreed_iff, Bool.and_eq_true, decide_eq_true_eq]
  constructor
  · rintro ⟨hSpace, value, u, hName, hAgreed, _⟩
    exact ⟨u, hName, hAgreed, hSpace⟩
  · rintro ⟨u, hName, hAgreed, hSpace⟩
    exact ⟨hSpace, u.value, u, hName, hAgreed, rfl⟩

theorem exists_head?_ne_iff {values : List String} : (∃ value ∈ values, values.head? ≠ some value) ↔
    ∃ value ∈ values, ∃ value' ∈ values, value ≠ value' := by
  constructor
  · rintro ⟨value, hValue, hOther⟩
    obtain ⟨first, rest, rfl⟩ := List.exists_cons_of_ne_nil (List.ne_nil_of_mem hValue)
    exact ⟨first, List.mem_cons_self, value, hValue, fun hEq => hOther (congrArg some hEq)⟩
  · rintro ⟨value, hValue, value', hValue', hne⟩
    by_cases hFirst : values.head? = some value
    · exact ⟨value', hValue', fun h => hne (Option.some.inj (hFirst.symm.trans h))⟩
    · exact ⟨value, hValue, hFirst⟩

/-- The texts that are taken out in the end, with repetitions. -/
theorem mem_clashes_iff {text : String} : text ∈ (empty.pushRows rows).considered.clashes ↔ text ∈ clashing rows := by
  by_cases hText : text = ""
  · subst hText
    constructor
    · intro h
      exact absurd h (Admission.blank_not_mem_considerAll List.not_mem_nil _)
    · intro h
      exact absurd rfl h.1
  · rw [(holds_considered _).clash text hText, exists_head?_ne_iff]
    simp only [mem_bringing_pushRows_iff]
    constructor
    · rintro ⟨value, ⟨key, hKey, hAgreed⟩, value', ⟨key', hKey', hAgreed'⟩, hne⟩
      exact ⟨hText, key, key', value, value', hKey, hKey', hAgreed, hAgreed', hne⟩
    · rintro ⟨_, key, key', value, value', hKey, hKey', hAgreed, hAgreed', hne⟩
      exact ⟨value, ⟨key, hKey, hAgreed⟩, value', ⟨key', hKey', hAgreed'⟩, hne⟩

/-- Where names clashed, the first of them is held until the end. -/
theorem isSome_of_mem_clashes {text : String} (h : text ∈ (empty.pushRows rows).considered.clashes) :
    ((empty.pushRows rows).considered.entries[text]?).isSome = true := by
  have hText := ((mem_clashes_iff rows).mp h).1
  have hHolds := holds_considered (empty.pushRows rows)
  obtain ⟨value, hValue, _⟩ := (hHolds.clash text hText).mp h
  rw [hHolds.entry text hText, List.isSome_head?]
  simpa using List.ne_nil_of_mem hValue

/-- The texts that are left. -/
theorem mem_keys_finish_iff {text : String} : text ∈ (empty.pushRows rows).finish.value.entries.keys ↔
    text ∈ reached rows \ clashing rows := by
  have hHeld : text ∈ (empty.pushRows rows).finish.value.entries.keys ↔
      ∃ value, (empty.pushRows rows).finish.value.get? text = some value := by
    rw [Std.ExtTreeMap.mem_keys, Std.ExtTreeMap.mem_iff_isSome_getElem?, Option.isSome_iff_exists]
    rfl
  simp only [hHeld, get?_rows]
  constructor
  · rintro ⟨value, hText, hReached, hOne⟩
    refine ⟨⟨hText, hReached⟩, ?_⟩
    rintro ⟨_, key, key', other, other', hKey, hKey', hAgreed, hAgreed', hne⟩
    exact hne ((hOne key other hKey hAgreed).trans (hOne key' other' hKey' hAgreed').symm)
  · rintro ⟨⟨hText, key, value, hKey, hAgreed⟩, hClear⟩
    refine ⟨value, hText, ⟨key, value, hKey, hAgreed⟩, fun key' other hKey' hAgreed' => ?_⟩
    by_contra hne
    exact hClear ⟨hText, key', key, other, value, hKey', hKey, hAgreed', hAgreed, hne⟩

/-! ## All counts -/

theorem countP_columns (p : List String → Bool) :
    (rows.map Prod.snd).countP p = rows.countP fun row => p row.2 := by
  rw [List.countP_map]
  rfl

theorem records_eq_countP :
    (empty.pushRows rows).finish.value.stats.records = rows.countP fun row => IsUsable row.2 := by
  have hRecords : (empty.pushRows rows).finish.value.stats.records = (empty.pushRows rows).records := rfl
  rw [hRecords, records_pushRows, countP_columns]
  refine (Nat.zero_add _).trans (List.countP_congr fun row _ => ?_)
  rw [toBool_readRow_iff, decide_eq_true_iff]

theorem malformed_eq_countP :
    (empty.pushRows rows).finish.value.stats.malformed = rows.countP fun row => ¬ IsUsable row.2 := by
  have hMalformed : (empty.pushRows rows).finish.value.stats.malformed = (empty.pushRows rows).malformed := rfl
  rw [hMalformed, malformed_pushRows, countP_columns]
  refine (Nat.zero_add _).trans (List.countP_congr fun row _ => ?_)
  rw [Bool.not_eq_true', ← Bool.not_eq_true, toBool_readRow_iff, decide_eq_true_iff]

theorem inconsistent_eq_encard : ((empty.pushRows rows).finish.value.stats.inconsistent : ℕ∞) =
    (disputed rows).encard + (clashing rows).encard := by
  have hNames : (empty.pushRows rows).considered.inconsistent =
      (empty.pushRows rows).names.toList.countP fun p => !p.2.agreed :=
    (Admission.counts_considerAll _ _).1.trans (Nat.zero_add _)
  have hDisputed : (disputed rows).encard = (empty.pushRows rows).considered.inconsistent := by
    rw [hNames, encard_names _ (fun p => !p.2.agreed) fun _ => mem_disputed_iff rows]
  have hClashing : (clashing rows).encard = (empty.pushRows rows).considered.clashes.toFinset.card := by
    rw [← Set.encard_coe_eq_coe_finsetCard]
    congr 1
    ext text
    rw [Finset.mem_coe, List.mem_toFinset, mem_clashes_iff]
  have hCount : (empty.pushRows rows).finish.value.stats.inconsistent =
      ((empty.pushRows rows).considered.clashes.foldl Admission.takeOut (empty.pushRows rows).considered).inconsistent :=
    rfl
  rw [hCount, Admission.inconsistent_foldl_takeOut, Finset.filter_true_of_mem, Nat.cast_add, hDisputed, hClashing]
  intro text hText
  exact isSome_of_mem_clashes rows (List.mem_toFinset.mp hText)

theorem normalized_eq_encard :
    ((empty.pushRows rows).finish.value.stats.normalized : ℕ∞) = (spaced rows).encard := by
  have hNames : (empty.pushRows rows).finish.value.stats.normalized =
      (empty.pushRows rows).names.toList.countP fun p => p.2.agreed && decide (' ' ∈ p.1.toList) :=
    (Admission.normalized_foldl_takeOut _ _).trans
      ((Admission.counts_considerAll _ _).2.trans (Nat.zero_add _))
  rw [hNames, encard_names _ (fun p => p.2.agreed && decide (' ' ∈ p.1.toList)) fun _ => mem_spaced_iff rows]

theorem size_eq_encard : ((empty.pushRows rows).finish.value.size : ℕ∞) = (reached rows \ clashing rows).encard := by
  have hKeys : (empty.pushRows rows).finish.value.size = (empty.pushRows rows).finish.value.entries.keys.length :=
    Std.ExtTreeMap.length_keys.symm
  rw [hKeys, encard_eq_length Std.ExtTreeMap.nodup_keys fun text => mem_keys_finish_iff rows]

/-- The counts of a glossary. Rows with a name and a clear name are counted as records and all others as malformed, and
    these are refused with the number of their usable columns and change nothing else. Names that rows give different
    clear names are counted as inconsistent, and so are texts at which names clash, each of them once. Names with spaces
    whose rows agree are counted as normalized, whatever they come to. The glossary has the texts that such names come
    to but for those at which they clash. -/
theorem counts_exact :
    (empty.pushRows rows).finish.value.stats.records = rows.countP (fun row => IsUsable row.2) ∧
    (empty.pushRows rows).finish.value.stats.malformed = rows.countP (fun row => ¬ IsUsable row.2) ∧
    (∀ (d : Draft) (line : Nat) (columns : List String),
      (∀ key value, Gives columns key value → d.push line columns = (d.record key value, none)) ∧
      (¬ IsUsable columns → d.push line columns =
        ({ d with malformed := d.malformed + 1 }, some (.malformedRow line (usableColumns columns))))) ∧
    ((empty.pushRows rows).finish.value.stats.inconsistent : ℕ∞) = (disputed rows).encard + (clashing rows).encard ∧
    ((empty.pushRows rows).finish.value.stats.normalized : ℕ∞) = (spaced rows).encard ∧
    clashing rows ⊆ reached rows ∧
    ((empty.pushRows rows).finish.value.size : ℕ∞) + (clashing rows).encard = (reached rows).encard := by
  refine ⟨records_eq_countP rows, malformed_eq_countP rows, fun d line columns => ?_, inconsistent_eq_encard rows,
    normalized_eq_encard rows, clashing_subset_reached rows, ?_⟩
  · exact ⟨fun _ _ h => d.push_of_gives line h, d.push_of_not_usable line⟩
  · rw [size_eq_encard]
    exact Set.encard_sdiff_add_encard_of_subset (clashing_subset_reached rows)

/-- Three names clash at one text, a fourth comes to none, and one has no clear name. -/
def crowdedRows : List (Nat × List String) :=
  [(2, ["A B", "x"]), (3, ["AB", "y"]), (4, ["A  B", "z"]), (5, ["  ", "w"]), (6, ["K", ""])]

/-- The text that clashes is counted once, and the name that comes to none has spaces. -/
theorem crowdedRows_counted :
    (disputed crowdedRows).encard + (clashing crowdedRows).encard = 1 ∧ (spaced crowdedRows).encard = 3 ∧
    Gives ["AB", "y"] "AB" "y" ∧ empty.push 3 ["AB", "y"] = (empty.record "AB" "y", none) ∧
    ¬ IsUsable ["K", ""] ∧ (empty.push 6 ["K", ""]).2 = some (.malformedRow 6 1) := by
  have hStats : (empty.pushRows crowdedRows).finish.value.stats = ⟨4, 1, 1, 3⟩ := by decide +kernel
  have hGives : Gives ["AB", "y"] "AB" "y" := readRow_eq_ok_iff.mp rfl
  have hNot : ¬ IsUsable ["K", ""] := by decide
  obtain ⟨_, _, hPush, hInconsistent, hNormalized, _⟩ := counts_exact crowdedRows
  obtain ⟨_, hRefused⟩ := hPush empty 6 ["K", ""]
  rw [hStats] at hInconsistent hNormalized
  exact ⟨hInconsistent.symm, hNormalized.symm, hGives, (hPush empty 3 _).1 _ _ hGives, hNot,
    congrArg Prod.snd (hRefused hNot)⟩

end Draft

end Unbundle
