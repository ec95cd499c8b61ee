/-
  Unbundle.Proofs.Clearing — a cleared line is the line cut into longest keys, with their values.

  (1) `Pieces.unique`, `pieces_segments`. Pairs cut every text in exactly one way: from left to right into the
  longest key that starts what is left, or into one character at which no key starts.

  (2) `Progress.has_foldl`. After any number of pieces the text put out is theirs, and of the keys replaced by
  something else each is listed once, in the order they first came.

  (3) `line_is_longest_keys`. Every line is read to its end with no cut inside a character, and what comes out
  is told by its pieces alone, with the note or without. The lines that are not read at all are no exception.
-/

import Mathlib.Data.List.Nodup
import Unbundle.Clearing
import Unbundle.Proofs.KeyTree

namespace Unbundle.Clearing

open KeyTree (LastGiven)

/-! ## (1) The cut of a text -/

/-- The pairs cut a text into these pieces. A key is the longest that starts what is left of the text, and its
    value is the one last given. A character is copied if no key starts at it. -/
inductive Pieces (pairs : List (String × String)) : List Char → List Segment → Prop
  | nil : Pieces pairs [] []
  | name {key : List Char} {value : String} {rest : List Char} {pieces : List Segment} :
      key ≠ [] → LastGiven pairs key value →
      (∀ p ∈ pairs, p.1.toList <+: key ++ rest → p.1.toList.length ≤ key.length) →
      Pieces pairs rest pieces → Pieces pairs (key ++ rest) (.name key value :: pieces)
  | copied {c : Char} {rest : List Char} {pieces : List Segment} :
      (∀ p ∈ pairs, p.1.toList ≠ [] → ¬ p.1.toList <+: c :: rest) →
      Pieces pairs rest pieces → Pieces pairs (c :: rest) (.copied c :: pieces)

theorem mem_pairs_of_lastGiven {pairs : List (String × String)} {key : List Char} {value : String}
    (h : LastGiven pairs key value) : ∃ p ∈ pairs, p.1.toList = key :=
  (KeyTree.exists_lastGiven_iff pairs key).mp ⟨value, h⟩

theorem Pieces.unique {pairs : List (String × String)} {cs : List Char} {pieces others : List Segment}
    (h : Pieces pairs cs pieces) (h' : Pieces pairs cs others) : pieces = others := by
  induction h generalizing others with
  | nil =>
    generalize hText : ([] : List Char) = text at h'
    cases h' with
    | nil => rfl
    | name hKey => exact absurd hText.symm (List.append_ne_nil_of_left_ne_nil hKey _)
    | copied => cases hText
  | @name key value rest pieces hKey hGiven hLongest _ ih =>
    obtain ⟨p, hp, hpKey⟩ := mem_pairs_of_lastGiven hGiven
    generalize hText : key ++ rest = text at h'
    cases h' with
    | nil => exact absurd hText (List.append_ne_nil_of_left_ne_nil hKey _)
    | @name key' value' rest' _ hKey' hGiven' hLongest' hOthers =>
      obtain ⟨q, hq, hqKey⟩ := mem_pairs_of_lastGiven hGiven'
      have hLe : key.length ≤ key'.length := by
        rw [← hpKey]
        exact hLongest' p hp (by rw [hpKey, ← hText]; exact List.prefix_append key rest)
      have hGe : key'.length ≤ key.length := by
        rw [← hqKey]
        exact hLongest q hq (by rw [hqKey, hText]; exact List.prefix_append key' rest')
      obtain ⟨rfl, rfl⟩ := List.append_inj hText (Nat.le_antisymm hLe hGe)
      rw [hGiven.unique hKey hGiven', ih hOthers]
    | copied hNone =>
      rw [← hText, ← hpKey] at hNone
      exact absurd (List.prefix_append _ rest) (hNone p hp (hpKey ▸ hKey))
  | @copied c rest pieces hNone _ ih =>
    generalize hText : c :: rest = text at h'
    cases h' with
    | nil => cases hText
    | name hKey hGiven =>
      obtain ⟨p, hp, hpKey⟩ := mem_pairs_of_lastGiven hGiven
      rw [hText, ← hpKey] at hNone
      exact absurd (List.prefix_append ..) (hNone p hp (hpKey ▸ hKey))
    | copied _ hOthers =>
      obtain ⟨rfl, rfl⟩ := List.cons.inj hText
      rw [ih hOthers]

/-- The pieces that a line is read in are the pieces it is cut into. -/
theorem pieces_segments (pairs : List (String × String)) (cs : List Char) :
    Pieces pairs cs (segments (KeyTree.ofList pairs) cs) := by
  match cs with
  | [] => exact .nil
  | c :: cs =>
    match hFound : (KeyTree.ofList pairs).longest? (c :: cs) with
    | some found =>
      obtain ⟨hKey, hSplit⟩ := KeyTree.longest?_eq_append hFound
      rw [segments_of_longest?_eq_some hFound, hSplit]
      refine .name hKey ?_ ?_ (pieces_segments pairs found.rest)
      · exact (KeyTree.get?_ofList_eq_some_iff pairs hKey found.value).mp (KeyTree.get?_of_longest?_eq_some hFound)
      · intro p hp hPrefix
        by_cases hEmpty : p.1.toList = []
        · rw [hEmpty]
          exact Nat.zero_le _
        · exact KeyTree.length_le_of_longest?_eq_some hFound (hSplit ▸ hPrefix)
            ((KeyTree.get?_ofList_isSome_iff pairs _).mpr ⟨hEmpty, p, hp, rfl⟩)
    | none =>
      rw [segments_of_longest?_eq_none hFound]
      refine .copied (fun p hp hKey hPrefix => ?_) (pieces_segments pairs cs)
      have hHeld := (KeyTree.get?_ofList_isSome_iff pairs _).mpr ⟨hKey, p, hp, rfl⟩
      rw [KeyTree.longest?_eq_none_iff.mp hFound _ hPrefix] at hHeld
      cases hHeld
termination_by cs.length
decreasing_by
  · have := congrArg List.length hSplit
    have := List.length_pos_iff.mpr hKey
    simp only [List.length_append, List.length_cons] at *
    omega
  · simp only [List.length_cons]
    omega

/-- The pieces of a text, one after the other, are the text. -/
theorem Pieces.flatMap_input {pairs : List (String × String)} {cs : List Char} {pieces : List Segment}
    (h : Pieces pairs cs pieces) : pieces.flatMap Segment.input = cs := by
  induction h with
  | nil => rfl
  | name _ _ _ _ ih => rw [List.flatMap_cons, ih, Segment.input]
  | copied _ _ ih => rw [List.flatMap_cons, ih, Segment.input, List.singleton_append]

theorem Pieces.lastGiven {pairs : List (String × String)} {cs : List Char} {pieces : List Segment}
    (h : Pieces pairs cs pieces) {key : List Char} {value : String} (hMem : .name key value ∈ pieces) :
    key ≠ [] ∧ LastGiven pairs key value := by
  induction h with
  | nil => cases hMem
  | name hKey hGiven _ _ ih =>
    rcases List.mem_cons.mp hMem with hEq | hMem
    · cases hEq
      exact ⟨hKey, hGiven⟩
    · exact ih hMem
  | copied _ _ ih =>
    rcases List.mem_cons.mp hMem with hEq | hMem
    · cases hEq
    · exact ih hMem

/-! ## (2) The text put out and the keys listed -/

/-- Of all these pairs, every one is listed, and no key twice, in the order they first come in. -/
structure ListedOnce (all shown : List (String × String)) : Prop where
  mem_iff : ∀ p, p ∈ shown ↔ p ∈ all
  nodup : (shown.map Prod.fst).Nodup
  ordered : shown.Pairwise fun p q => all.idxOf p < all.idxOf q

namespace ListedOnce

variable {all shown others : List (String × String)} {p : String × String}

theorem nil : ListedOnce [] [] :=
  ⟨fun _ => Iff.rfl, List.nodup_nil, .nil⟩

theorem unique (h : ListedOnce all shown) (h' : ListedOnce all others) : shown = others := by
  have hPerm : shown.Perm others :=
    (List.perm_ext_iff_of_nodup h.nodup.of_map h'.nodup.of_map).mpr fun p => (h.mem_iff p).trans (h'.mem_iff p).symm
  refine hPerm.eq_of_pairwise (fun p q _ _ hpq hqp => ?_) h.ordered h'.ordered
  exact absurd hpq (Nat.lt_asymm hqp)

theorem idxOf_concat_of_mem (h : ListedOnce all shown) (hMem : p ∈ shown) (q : String × String) :
    (all ++ [q]).idxOf p = all.idxOf p := by
  rw [List.idxOf_append, if_pos ((h.mem_iff p).mp hMem)]

theorem ordered_concat (h : ListedOnce all shown) (q : String × String) :
    shown.Pairwise fun p r => (all ++ [q]).idxOf p < (all ++ [q]).idxOf r := by
  refine h.ordered.imp_of_mem fun {p r} hp hr hLt => ?_
  rw [h.idxOf_concat_of_mem hp, h.idxOf_concat_of_mem hr]
  exact hLt

/-- A pair that came before is not listed again. -/
theorem again (h : ListedOnce all shown) (hp : p ∈ all) : ListedOnce (all ++ [p]) shown where
  mem_iff q := by
    rw [h.mem_iff, List.mem_append, List.mem_singleton]
    refine ⟨Or.inl, fun hq => ?_⟩
    rcases hq with hq | rfl
    · exact hq
    · exact hp
  nodup := h.nodup
  ordered := h.ordered_concat p

/-- A pair with a key that did not come before is listed behind the others. -/
theorem first (h : ListedOnce all shown) (hp : p.1 ∉ shown.map Prod.fst) : ListedOnce (all ++ [p]) (shown ++ [p]) where
  mem_iff q := by rw [List.mem_append, List.mem_append, h.mem_iff]
  nodup := by
    rw [List.map_append, List.map_singleton, ← List.concat_eq_append]
    exact h.nodup.concat hp
  ordered := by
    refine List.pairwise_append.mpr ⟨h.ordered_concat p, List.pairwise_singleton .., fun q hq r hr => ?_⟩
    have hNew : p ∉ all := fun hMem => hp (List.mem_map_of_mem ((h.mem_iff p).mpr hMem))
    rw [List.mem_singleton.mp hr, h.idxOf_concat_of_mem hq, List.idxOf_append, if_neg hNew]
    have := List.idxOf_lt_length_of_mem ((h.mem_iff q).mp hq)
    omega

end ListedOnce

/-- Every key among the pieces stands with one value. -/
def OneValue (pieces : List Segment) : Prop :=
  ∀ key value other, .name key value ∈ pieces → .name key other ∈ pieces → value = other

theorem Pieces.oneValue {pairs : List (String × String)} {cs : List Char} {pieces : List Segment}
    (h : Pieces pairs cs pieces) : OneValue pieces :=
  fun _ _ _ hMem hMem' => (h.lastGiven hMem).2.unique (h.lastGiven hMem).1 (h.lastGiven hMem').2

/-- The text that the pieces stand for. -/
def plain (pieces : List Segment) : String := String.ofList (pieces.flatMap Segment.output)

namespace Progress

/-- These pieces are read, from the start of a line. -/
structure Has (pieces : List Segment) (s : Progress) : Prop where
  text : s.text = plain pieces
  seen : ∀ key, key ∈ s.seen ↔ key ∈ s.replacements.map Prod.fst
  listed : ListedOnce (pieces.filterMap Segment.replacement?) s.replacements

theorem has_start : start.Has [] :=
  ⟨rfl, fun _ => Iff.rfl, .nil⟩

/-- A key that was seen stood among the pieces, with a value other than itself. -/
theorem Has.exists_of_mem_seen {pieces : List Segment} {s : Progress} (h : s.Has pieces) {key : List Char}
    (hSeen : String.ofList key ∈ s.seen) :
    ∃ value, .name key value ∈ pieces ∧ (String.ofList key, value) ∈ pieces.filterMap Segment.replacement? := by
  obtain ⟨⟨name, value⟩, hMem, rfl⟩ := List.mem_map.mp ((h.seen _).mp hSeen)
  have hAll := (h.listed.mem_iff _).mp hMem
  obtain ⟨piece, hPiece, hReplaced⟩ := List.mem_filterMap.mp hAll
  cases piece with
  | copied c => cases hReplaced
  | name key' value' =>
    simp only [Segment.replacement?] at hReplaced
    split at hReplaced
    · cases hReplaced
    · obtain ⟨hKey, rfl⟩ := Prod.mk.inj (Option.some.inj hReplaced)
      rw [String.ofList_inj.mp hKey] at hPiece
      exact ⟨value', hPiece, hAll⟩

theorem plain_concat (pieces : List Segment) (piece : Segment) :
    plain (pieces ++ [piece]) = plain pieces ++ String.ofList piece.output := by
  rw [plain, List.flatMap_append, List.flatMap_singleton, String.ofList_append, ← plain]

theorem Has.take {pieces : List Segment} {s : Progress} (h : s.Has pieces) {piece : Segment}
    (hOne : OneValue (pieces ++ [piece])) : (s.take piece).Has (pieces ++ [piece]) := by
  cases piece with
  | copied c =>
    refine ⟨?_, h.seen, ?_⟩
    · rw [plain_concat, ← h.text]
      exact String.push_eq_append c
    · rw [List.filterMap_append]
      exact (List.append_nil _).symm ▸ h.listed
  | name key value =>
    have hText : s.text ++ value = plain (pieces ++ [.name key value]) := by
      rw [plain_concat, ← h.text, Segment.output, String.ofList_toList]
    rw [Progress.take, replace]
    by_cases hEq : String.ofList key = value
    · -- the key is its own value, so nothing is listed
      rw [if_neg fun hNe => hNe.1 hEq]
      refine ⟨hText, h.seen, ?_⟩
      rw [List.filterMap_append, List.filterMap_cons_none (by simp [Segment.replacement?, hEq]), List.filterMap_nil,
        List.append_nil]
      exact h.listed
    · have hReplaced : (pieces ++ [Segment.name key value]).filterMap Segment.replacement? =
          pieces.filterMap Segment.replacement? ++ [(String.ofList key, value)] := by
        rw [List.filterMap_append, List.filterMap_cons_some (by rw [Segment.replacement?, if_neg hEq]),
          List.filterMap_nil]
      by_cases hSeen : String.ofList key ∈ s.seen
      · rw [if_neg fun hNew => hNew.2 hSeen]
        refine ⟨hText, h.seen, ?_⟩
        obtain ⟨other, hMem, hAll⟩ := h.exists_of_mem_seen hSeen
        rw [hReplaced]
        refine h.listed.again ?_
        rw [hOne key value other (List.mem_append_right _ List.mem_cons_self) (List.mem_append_left _ hMem)]
        exact hAll
      · rw [if_pos ⟨hEq, hSeen⟩]
        refine ⟨hText, fun name => ?_, ?_⟩
        · rw [List.map_append, List.mem_append, List.mem_cons, h.seen name, Or.comm]
          exact Iff.or Iff.rfl List.mem_singleton.symm
        · rw [hReplaced]
          exact h.listed.first fun hMem => hSeen ((h.seen _).mpr hMem)

/-- All pieces of a line read, one after the other. -/
theorem has_foldl {pieces : List Segment} (hOne : OneValue pieces) : (pieces.foldl take start).Has pieces := by
  induction pieces using List.reverseRecOn with
  | nil => exact has_start
  | append_singleton pieces piece ih =>
    rw [List.foldl_append]
    refine (ih fun key value other hMem hMem' => ?_).take hOne
    exact hOne key value other (List.mem_append_left _ hMem) (List.mem_append_left _ hMem')

end Progress

/-! ## (3) Whole lines -/

theorem segments_of_isEmpty {t : KeyTree} (h : t.isEmpty) (cs : List Char) : segments t cs = cs.map .copied := by
  induction cs with
  | nil => rfl
  | cons c cs ih => rw [segments_of_longest?_eq_none (KeyTree.longest?_of_isEmpty h), ih, List.map_cons]

theorem plain_map_copied (cs : List Char) : plain (cs.map .copied) = String.ofList cs := by
  rw [plain, List.flatMap_map]
  exact congrArg String.ofList (List.flatMap_singleton' cs)

theorem filterMap_replacement?_map_copied (cs : List Char) :
    (cs.map Segment.copied).filterMap Segment.replacement? = [] := by
  rw [List.filterMap_map]
  exact List.filterMap_eq_nil_iff.mpr fun _ _ => rfl

/-- A line of copied characters comes out as it was, without a note. -/
theorem finish_foldl_copied (annotate : Bool) (cs : List Char) :
    ((cs.map Segment.copied).foldl Progress.take .start).finish annotate = ⟨String.ofList cs, []⟩ := by
  have hOne : OneValue (cs.map Segment.copied) := by
    intro key value other hMem
    obtain ⟨c, _, h⟩ := List.mem_map.mp hMem
    cases h
  have hHas := Progress.has_foldl hOne
  have hNone := hHas.listed
  rw [filterMap_replacement?_map_copied] at hNone
  rw [Progress.finish, hHas.text, plain_map_copied, hNone.unique .nil, List.isEmpty_nil, Bool.not_true, Bool.and_false]
  rfl

/-- A line that is left unread comes out as if it were read. -/
theorem line?_eq (t : KeyTree) (annotate : Bool) (text : String) :
    line? t annotate text = (read? t text .start).map (Progress.finish annotate) := by
  unfold line?
  split
  · rename_i h
    have hCopied : segments t text.toList = text.toList.map .copied := by
      rcases Bool.or_eq_true_iff.mp h with hText | hKeys
      · rw [String.isEmpty_iff.mp hText]
        rfl
      · exact segments_of_isEmpty hKeys text.toList
    rw [read?_eq t [] text.toList rfl rfl, Option.map_some, hCopied, finish_foldl_copied, String.ofList_toList]
  · rfl

/-- What comes out is told by the pieces the line is read in. -/
theorem line_eq (t : KeyTree) (annotate : Bool) (text : String) :
    line t annotate text = ((segments t text.toList).foldl Progress.take .start).finish annotate := by
  have hSome : line? t annotate text = some (line t annotate text) := (Option.some_get _).symm
  rw [line?_eq, read?_eq t [] text.toList rfl rfl, Option.map_some] at hSome
  exact (Option.some.inj hSome).symm

/-- Without keys every line comes out as it was. -/
theorem line_of_isEmpty {t : KeyTree} (h : t.isEmpty) (annotate : Bool) (text : String) :
    line t annotate text = ⟨text, []⟩ := by
  rw [line_eq, segments_of_isEmpty h, finish_foldl_copied, String.ofList_toList]

/-- A line with clear names is told by the pieces it is cut into. No cut falls inside a character, and a line that
    is left unread is no exception. -/
theorem line_is_longest_keys (pairs : List (String × String)) (text : String) :
    ∃ pieces shown,
      Pieces pairs text.toList pieces ∧ (∀ others, Pieces pairs text.toList others → others = pieces) ∧
      ListedOnce (pieces.filterMap Segment.replacement?) shown ∧
      (∀ others, ListedOnce (pieces.filterMap Segment.replacement?) others → others = shown) ∧
      ∀ annotate,
        line? (KeyTree.ofList pairs) annotate text = some (line (KeyTree.ofList pairs) annotate text) ∧
        line? (KeyTree.ofList pairs) annotate text =
          (read? (KeyTree.ofList pairs) text .start).map (Progress.finish annotate) ∧
        line (KeyTree.ofList pairs) annotate text =
          { text := if annotate = true ∧ shown ≠ [] then plain pieces ++ note shown else plain pieces
            replacements := shown } := by
  have hPieces := pieces_segments pairs text.toList
  have hHas := Progress.has_foldl hPieces.oneValue
  refine ⟨_, _, hPieces, fun _ h => h.unique hPieces, hHas.listed, fun _ h => h.unique hHas.listed, fun annotate => ?_⟩
  have hSome : line? (KeyTree.ofList pairs) annotate text = some (line (KeyTree.ofList pairs) annotate text) :=
    (Option.some_get _).symm
  refine ⟨hSome, line?_eq .., Option.some.inj (hSome.symm.trans ?_)⟩
  rw [line?_eq, read?_eq _ [] text.toList rfl rfl, Option.map_some, Progress.finish, hHas.text]
  simp

end Unbundle.Clearing
