/-
  Unbundle.Proofs.Glossary.Admission — which names a glossary keeps.

  Names are admitted one after the other. A text without spaces holds the first clear name that a name comes to
  it with, and clashes once another one comes; only at the end clashing texts are taken out. So what is held at
  the end does not depend on how many names clash, nor on the order in which they do.

  - `Admission.Holds.consider`, `Admission.Holds.considerAll`: what is held of the names admitted so far.
  - `get?_finish`: the glossary of a draft, by the names that come to a text.
  - `admission_exact`: the glossary of rows, said of the rows alone.
-/

import Unbundle.Proofs.Glossary.Agreement

namespace Unbundle.Draft

/-- The clear names that agreeing names bring to a text. -/
def bringing (names : List (String × Usage)) (text : String) : List String :=
  names.filterMap fun p => if p.2.agreed = true ∧ collapse p.1 = text then some p.2.value else none

theorem bringing_append (names more : List (String × Usage)) (text : String) :
    bringing (names ++ more) text = bringing names text ++ bringing more text :=
  List.filterMap_append

theorem mem_bringing_iff {names : List (String × Usage)} {text value : String} : value ∈ bringing names text ↔
    ∃ key u, (key, u) ∈ names ∧ u.agreed = true ∧ collapse key = text ∧ u.value = value := by
  simp [bringing, and_assoc]

theorem bringing_singleton (key : String) (u : Usage) (text : String) : bringing [(key, u)] text =
    if u.agreed = true ∧ collapse key = text then [u.value] else [] := by
  unfold bringing
  split <;> simp_all

namespace Admission

/-- What is held of the clear names brought to texts so far: at every text the first one, and whether another
    one came. Nothing is held at the empty text. -/
structure Holds (a : Admission) (brought : String → List String) : Prop where
  entry : ∀ text, text ≠ "" → a.entries[text]? = (brought text).head?
  clash : ∀ text, text ≠ "" → (text ∈ a.clashes ↔ ∃ value ∈ brought text, (brought text).head? ≠ some value)
  blank : a.entries[""]? = none

theorem holds_nil : Holds ⟨∅, [], 0, 0⟩ (bringing []) := ⟨by simp [bringing], by simp [bringing], by simp⟩

theorem Holds.congr {a : Admission} {brought brought' : String → List String} (h : Holds a brought)
    (he : ∀ text, text ≠ "" → brought' text = brought text) : Holds a brought' where
  entry := fun text ht => (h.entry text ht).trans (by rw [he text ht])
  clash := fun text ht => (h.clash text ht).trans (by rw [he text ht])
  blank := h.blank

/-! ## One clear name brought to a text -/

theorem entries_bring_of_ne (a : Admission) {t text : String} (value : String) (h : t ≠ text) :
    (a.bring text value).value.entries[t]? = a.entries[t]? := by
  unfold bring
  split
  · rfl
  · split
    · simp [Std.ExtTreeMap.getElem?_insert, Ne.symm h]
    · split <;> rfl

theorem mem_clashes_bring_of_ne (a : Admission) {t text : String} (value : String) (h : t ≠ text) :
    t ∈ (a.bring text value).value.clashes ↔ t ∈ a.clashes := by
  unfold bring
  split
  · rfl
  · split
    · rfl
    · split
      · rfl
      · simp [h]

theorem entries_bring_self (a : Admission) {text : String} (value : String) (ht : text ≠ "") :
    (a.bring text value).value.entries[text]? = some (a.entries[text]?.getD value) := by
  rw [bring, if_neg ht]
  cases hk : a.entries[text]? with
  | none => simp
  | some known => by_cases h : known = value <;> simp [h, hk]

theorem mem_clashes_bring_self (a : Admission) {text : String} (value : String) (ht : text ≠ "") :
    text ∈ (a.bring text value).value.clashes ↔
      text ∈ a.clashes ∨ ∃ known, a.entries[text]? = some known ∧ known ≠ value := by
  rw [bring, if_neg ht]
  cases hk : a.entries[text]? with
  | none => simp
  | some known => by_cases h : known = value <;> simp [h]

theorem entries_bring_blank (a : Admission) (text value : String) (h : a.entries[""]? = none) :
    (a.bring text value).value.entries[""]? = none := by
  by_cases ht : "" = text
  · rw [bring, if_pos ht.symm]
    exact h
  · rw [entries_bring_of_ne a value ht, h]

/-- The first clear name brought to a text is held, another one clashes with it. -/
theorem Holds.bring {a : Admission} {brought : String → List String} (h : Holds a brought) (text value : String) :
    Holds (a.bring text value).value fun t => if t = text then brought t ++ [value] else brought t where
  entry := by
    intro t ht
    by_cases e : t = text
    · subst e
      rw [entries_bring_self a value ht, h.entry t ht, if_pos rfl]
      cases brought t <;> rfl
    · rw [entries_bring_of_ne a value e, h.entry t ht, if_neg e]
  clash := by
    intro t ht
    by_cases e : t = text
    · subst e
      rw [mem_clashes_bring_self a value ht, h.clash t ht, h.entry t ht]
      cases brought t <;> simp [or_and_right, exists_or]
    · simp only [mem_clashes_bring_of_ne a value e, h.clash t ht, if_neg e]
  blank := entries_bring_blank a text value h.blank

/-! ## The names of a draft -/

theorem value_consider (a : Admission) (key : String) (u : Usage) : (a.consider key u).value =
    if u.agreed then
      ({ a with normalized := a.normalized + if ' ' ∈ key.toList then 1 else 0 }.bring (collapse key) u.value).value
    else { a with inconsistent := a.inconsistent + 1 } := by
  unfold consider
  by_cases hu : u.agreed = true
  · by_cases ho : 1 < u.occurrences <;> by_cases hs : ' ' ∈ key.toList <;> simp [hu, ho, hs]
  · simp [hu]

theorem Holds.consider {a : Admission} {names : List (String × Usage)} (h : Holds a (bringing names)) (key : String)
    (u : Usage) : Holds (a.consider key u).value (bringing (names ++ [(key, u)])) := by
  rw [value_consider]
  split
  · rename_i hu
    have h' : Holds { a with normalized := a.normalized + if ' ' ∈ key.toList then 1 else 0 } (bringing names) :=
      ⟨h.entry, h.clash, h.blank⟩
    refine (h'.bring (collapse key) u.value).congr fun text _ => ?_
    rw [bringing_append, bringing_singleton]
    by_cases e : text = collapse key
    · simp [hu, e]
    · simp [e, Ne.symm e]
  · rename_i hu
    have h' : Holds { a with inconsistent := a.inconsistent + 1 } (bringing names) := ⟨h.entry, h.clash, h.blank⟩
    refine h'.congr fun text _ => ?_
    rw [bringing_append, bringing_singleton]
    simp [hu]

theorem Holds.considerAll {a : Admission} {names : List (String × Usage)} (h : Holds a (bringing names))
    (more : List (String × Usage)) : Holds (a.considerAll more).value (bringing (names ++ more)) := by
  induction more generalizing a names with
  | nil => simpa [Admission.considerAll] using h
  | cons p more ih =>
    have := ih (h.consider p.1 p.2)
    rwa [List.append_assoc] at this

end Admission

/-! ## The finished glossary -/

theorem Admission.entries_takeOut (a : Admission) (text key : String) :
    (a.takeOut text).entries[key]? = if key = text then none else a.entries[key]? := by
  unfold takeOut
  split
  · rename_i hNone
    by_cases hk : key = text
    · rw [if_pos hk, hk, hNone]
    · rw [if_neg hk]
  · by_cases hk : key = text
    · simp [hk]
    · simp [hk, Std.ExtTreeMap.getElem?_erase, Ne.symm hk]

theorem Admission.entries_foldl_takeOut (texts : List String) (a : Admission) (key : String) :
    (texts.foldl takeOut a).entries[key]? = if key ∈ texts then none else a.entries[key]? := by
  induction texts generalizing a with
  | nil => rfl
  | cons text texts ih =>
    rw [List.foldl_cons, ih, entries_takeOut]
    by_cases hk : key ∈ texts
    · simp [hk]
    · simp [hk]

def considered (d : Draft) : Admission := (Admission.considerAll ⟨∅, [], 0, 0⟩ d.names.toList).value

theorem holds_considered (d : Draft) : d.considered.Holds (bringing d.names.toList) :=
  Admission.holds_nil.considerAll d.names.toList

theorem get?_finish_eq_considered (d : Draft) (text : String) : d.finish.value.get? text =
    if text ∈ d.considered.clashes then none else d.considered.entries[text]? := by
  have h : d.finish.value.get? text =
      (d.considered.clashes.foldl Admission.takeOut d.considered).entries[text]? := rfl
  rw [h, Admission.entries_foldl_takeOut]

/-- A glossary holds a clear name for a text if some name brings it there and no name brings another. -/
theorem get?_finish (d : Draft) (text value : String) : d.finish.value.get? text = some value ↔
    text ≠ "" ∧ value ∈ bringing d.names.toList text ∧ ∀ other ∈ bringing d.names.toList text, other = value := by
  have hold := d.holds_considered
  have hget : d.finish.value.get? text = some value ↔
      text ∉ d.considered.clashes ∧ d.considered.entries[text]? = some value := by
    rw [get?_finish_eq_considered]
    split <;> simp_all
  rw [hget]
  by_cases ht : text = ""
  · subst ht
    simp [hold.blank]
  · rw [hold.entry text ht, hold.clash text ht]
    cases bringing d.names.toList text with
    | nil => simp
    | cons first rest =>
      simp only [List.head?_cons, ne_eq, ht, not_false_eq_true, true_and, not_exists, not_and, Option.some.injEq,
        Decidable.not_not, List.mem_cons, forall_eq_or_imp]
      constructor
      · rintro ⟨h, rfl⟩
        exact ⟨.inl rfl, rfl, fun other ho => (h other ho).symm⟩
      · rintro ⟨_, rfl, h⟩
        exact ⟨fun other ho => (h other ho).symm, rfl⟩

theorem mem_bringing_pushRows_iff {rows : List (Nat × List String)} {text value : String} :
    value ∈ bringing (empty.pushRows rows).names.toList text ↔ ∃ key, collapse key = text ∧ Agreed rows key value := by
  simp only [mem_bringing_iff, Std.ExtTreeMap.mem_toList_iff_getElem?_eq_some, agreed_iff]
  constructor
  · intro ⟨key, u, hu, ha, hk, hv⟩
    exact ⟨key, hk, u, hu, ha, hv⟩
  · intro ⟨key, hk, u, hu, ha, hv⟩
    exact ⟨key, u, hu, ha, hk, hv⟩

theorem get?_rows (rows : List (Nat × List String)) (text value : String) :
    (empty.pushRows rows).finish.value.get? text = some value ↔
      text ≠ "" ∧ (∃ key value, collapse key = text ∧ Agreed rows key value) ∧
        ∀ key other, collapse key = text → Agreed rows key other → other = value := by
  rw [get?_finish]
  simp only [mem_bringing_pushRows_iff]
  refine and_congr_right fun _ => ⟨?_, ?_⟩
  · intro ⟨⟨key, hk, ha⟩, h⟩
    exact ⟨⟨key, value, hk, ha⟩, fun key other hk ha => h other ⟨key, hk, ha⟩⟩
  · intro ⟨⟨key, value', hk, ha⟩, h⟩
    have hv : value' = value := h key value' hk ha
    exact ⟨⟨key, hk, hv ▸ ha⟩, fun other ⟨key, hk, ha⟩ => h key other hk ha⟩

/-- Without the rows of a name, what other names agree on stays, and this name agrees on nothing. -/
theorem agreed_filter_iff {rows : List (Nat × List String)} {key key' value : String} :
    Agreed (rows.filter fun row => row.2.head? ≠ some key) key' value ↔ key' ≠ key ∧ Agreed rows key' value := by
  have hmem : ∀ {row : Nat × List String} {k w : String}, Gives row.2 k w →
      (row ∈ rows.filter (fun row => row.2.head? ≠ some key) ↔ row ∈ rows ∧ k ≠ key) := by
    intro row k w hg
    rw [List.mem_filter, hg.head?_eq]
    simp
  constructor
  · intro ⟨⟨row, hrow, hg⟩, h⟩
    obtain ⟨hrow, hne⟩ := (hmem hg).mp hrow
    exact ⟨hne, ⟨row, hrow, hg⟩, fun row' hrow' other hg' => h row' ((hmem hg').mpr ⟨hrow', hne⟩) other hg'⟩
  · intro ⟨hne, ⟨row, hrow, hg⟩, h⟩
    exact ⟨⟨row, (hmem hg).mpr ⟨hrow, hne⟩, hg⟩, fun row' hrow' other hg' => h row' ((hmem hg').mp hrow').1 other hg'⟩

/-- The glossary of rows holds a clear name for a text if the text is not empty, some agreeing name comes to it
    without its spaces, and every such name agrees on that clear name. So two agreeing names with different clear
    names leave nothing at their text, and the rows of a name that does not agree might as well not be there. -/
theorem admission_exact (rows : List (Nat × List String)) :
    (∀ text value, (empty.pushRows rows).finish.value.get? text = some value ↔
      text ≠ "" ∧ (∃ key value, collapse key = text ∧ Agreed rows key value) ∧
        ∀ key other, collapse key = text → Agreed rows key other → other = value) ∧
    (∀ key key' value value', collapse key = collapse key' → Agreed rows key value → Agreed rows key' value' →
      value ≠ value' → (empty.pushRows rows).finish.value.get? (collapse key) = none) ∧
    (∀ key, (¬ ∃ value, Agreed rows key value) → ∀ text,
      (empty.pushRows (rows.filter fun row => row.2.head? ≠ some key)).finish.value.get? text =
        (empty.pushRows rows).finish.value.get? text) := by
  refine ⟨get?_rows rows, fun key key' value value' hk ha ha' hne => ?_, fun key hkey text => ?_⟩
  · refine Option.eq_none_iff_forall_ne_some.mpr fun found hfound => hne ?_
    obtain ⟨_, _, h⟩ := (get?_rows rows _ _).mp hfound
    exact (h key value rfl ha).trans (h key' value' hk.symm ha').symm
  · have hagree : ∀ key' value, Agreed (rows.filter fun row => row.2.head? ≠ some key) key' value ↔
        Agreed rows key' value := fun key' value => by
      rw [agreed_filter_iff, and_iff_right_iff_imp]
      rintro h rfl
      exact hkey ⟨value, h⟩
    refine Option.ext fun value => ?_
    rw [get?_rows, get?_rows]
    simp only [hagree]

end Unbundle.Draft
