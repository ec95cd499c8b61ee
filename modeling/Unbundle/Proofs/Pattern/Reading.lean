/-
  Unbundle.Proofs.Pattern.Reading — no pattern that can be read asks for more rounds than it allows.

  Counts are compared where they are read, and the operators without counts have bounds in order. What is left is that
  putting expressions together brings no other repetitions in.

  - `Reader.Ensures`: what holds of all that a reader gives, and how it is put together.
  - `wellCounted_choice`, `wellCounted_sequence`, `wellCounted_repeated`: expressions put together from parts.
  - `wellCounted_of_read?`: what a pattern stands for is `WellCounted`.
-/

import Unbundle.Pattern.Reading
import Unbundle.Proofs.Pattern.Matching

namespace Unbundle

/-! ## What readers give -/

namespace Text.Reader

variable {α β σ ι : Type} {P : α → Prop} {Q : β → Prop}

/-- All that a reader gives has a property. -/
def Ensures (r : Reader α) (P : α → Prop) : Prop := ∀ cs a rest, r cs = some (a, rest) → P a

namespace Ensures

theorem pure {a : α} (h : P a) : Ensures (Pure.pure a) P := by
  intro cs b rest hRun
  obtain ⟨rfl, _⟩ := Prod.mk.inj (Option.some.inj hRun)
  exact h

theorem refuse : Ensures (Reader.refuse : Reader α) P := fun _ _ _ hRun => nomatch hRun

theorem bind {r : Reader α} {f : α → Reader β} (h : Ensures r P) (hNext : ∀ a, P a → Ensures (f a) Q) :
    Ensures (r >>= f) Q := by
  intro cs b rest hRun
  obtain ⟨⟨a, left⟩, hFirst, hSecond⟩ := Option.bind_eq_some_iff.mp hRun
  exact hNext a (h cs a left hFirst) left b rest hSecond

/-- What is read first may be anything. -/
theorem andThen {r : Reader α} {f : α → Reader β} (hNext : ∀ a, Ensures (f a) Q) : Ensures (r >>= f) Q :=
  bind (P := fun _ => True) (fun _ _ _ _ => trivial) fun a _ => hNext a

/-- What every round of a loop keeps holds of all that it gives. -/
theorem loop {step : σ → Reader (σ ⊕ α)} {Keeps : σ → Prop}
    (hStep : ∀ s, Keeps s → Ensures (step s) (Sum.elim Keeps P)) {s : σ} (hStart : Keeps s) :
    Ensures (Reader.loop step s) P := by
  have hRounds : ∀ n s, Keeps s → Ensures (rounds step n s) P := by
    intro n
    induction n with
    | zero => exact fun _ _ => refuse
    | succ n ih =>
      intro s hs
      refine bind (hStep s hs) fun next hNext => ?_
      cases next with
      | inl s => exact ih s hNext
      | inr a => exact pure hNext
  exact fun cs => hRounds (cs.length + 1) s hStart cs

theorem levels {f : (ι → Reader α) → ι → Reader α}
    (hLevel : ∀ self, (∀ i, Ensures (self i) P) → ∀ i, Ensures (f self i) P) (n : Nat) :
    ∀ i, Ensures (Reader.levels f n i) P := by
  induction n with
  | zero => exact fun _ => refuse
  | succ n ih => exact hLevel _ ih

end Ensures

theorem Ensures.of_readAll {r : Reader α} (h : Ensures r P) {cs : List Char} {a : α} (hRun : readAll r cs = some a) :
    P a := by
  unfold readAll at hRun
  split at hRun
  · obtain rfl := Option.some.inj hRun
    exact h _ _ _ ‹_›
  · cases hRun

end Text.Reader

namespace Pattern

/-! ## Expressions from parts -/

namespace Expr

variable {e : Expr} {es : List Expr}

theorem wellCounted_followedBy {a b : Expr} (ha : a.WellCounted) (hb : b.WellCounted) :
    (a.followedBy b).WellCounted := by
  fun_induction followedBy a b with
  | case1 b => exact hb
  | case2 b x y ih => exact ⟨ha.1, ih ha.2 hb⟩
  | case3 a _ _ => exact ha
  | case4 a b _ _ _ => exact ⟨ha, hb⟩

theorem wellCounted_sequence (h : ∀ e ∈ es, e.WellCounted) : (sequence es).WellCounted := by
  induction es with
  | nil => trivial
  | cons e es ih =>
    obtain ⟨he, hes⟩ := List.forall_mem_cons.mp h
    exact wellCounted_followedBy he (ih hes)

theorem wellCounted_parts (h : e.WellCounted) : ∀ part ∈ e.parts, part.WellCounted := by
  fun_induction parts e with
  | case1 a b p ps hParts hLiteral ih =>
    rw [hParts] at ih
    obtain ⟨hFirst, hRest⟩ := List.forall_mem_cons.mp (ih h.2)
    exact List.forall_mem_cons.mpr ⟨⟨h.1, hFirst⟩, hRest⟩
  | case2 a b p ps hParts hLiteral ih =>
    rw [hParts] at ih
    exact List.forall_mem_cons.mpr ⟨h.1, ih h.2⟩
  | case3 a b hParts ih => exact List.forall_mem_singleton.mpr h.1
  | case4 e hOther => exact List.forall_mem_singleton.mpr h

theorem wellCounted_alternatives (h : e.WellCounted) : ∀ a ∈ e.alternatives, a.WellCounted := by
  fun_induction alternatives e with
  | case1 a b iha ihb => exact List.forall_mem_append.mpr ⟨iha h.1, ihb h.2⟩
  | case2 e hOther => exact List.forall_mem_singleton.mpr h

theorem wellCounted_flatMap_alternatives (h : ∀ e ∈ es, e.WellCounted) :
    ∀ a ∈ es.flatMap alternatives, a.WellCounted := by
  intro a ha
  obtain ⟨e, he, hFrom⟩ := List.mem_flatMap.mp ha
  exact wellCounted_alternatives (h e he) a hFrom

theorem wellCounted_altAll (he : e.WellCounted) (hes : ∀ a ∈ es, a.WellCounted) : (altAll e es).WellCounted := by
  induction es generalizing e with
  | nil => exact he
  | cons f rest ih =>
    obtain ⟨hf, hRest⟩ := List.forall_mem_cons.mp hes
    exact ⟨he, ih hf hRest⟩

theorem wellCounted_oneOf (h : ∀ e ∈ es, e.WellCounted) : (oneOf es).WellCounted := by
  unfold oneOf
  split
  · trivial
  · exact List.forall_mem_singleton.mp h
  · trivial
  · trivial
  · obtain ⟨he, hRest⟩ := List.forall_mem_cons.mp h
    exact wellCounted_altAll he hRest

theorem sharedStart_subset (as bs : List Expr) : sharedStart as bs ⊆ as := by
  fun_induction sharedStart as bs with
  | case1 a as b bs _ ih => exact List.cons_subset_cons a ih
  | case2 => exact List.nil_subset _
  | case3 => exact List.nil_subset _

theorem foldl_sharedStart_subset (first : List Expr) (lists : List (List Expr)) :
    lists.foldl sharedStart first ⊆ first := by
  induction lists generalizing first with
  | nil => exact List.Subset.refl first
  | cons list lists ih => exact List.Subset.trans (ih (sharedStart first list)) (sharedStart_subset first list)

/-- What alternatives start with, in front of a choice between what is left of them. -/
theorem wellCounted_sharing {shared : List Expr} {lists : List (List Expr)}
    (hShared : ∀ part ∈ shared, part.WellCounted) (hParts : ∀ ps ∈ lists, ∀ part ∈ ps, part.WellCounted) :
    (sequence (shared ++ [oneOf ((lists.map fun ps =>
      sequence (ps.drop shared.length)).flatMap alternatives)])).WellCounted := by
  have hEnds : ∀ e ∈ lists.map (fun ps => sequence (ps.drop shared.length)), e.WellCounted := by
    intro e he
    obtain ⟨ps, hps, rfl⟩ := List.mem_map.mp he
    exact wellCounted_sequence fun part hPart => hParts ps hps part (List.mem_of_mem_drop hPart)
  have hChoice := wellCounted_oneOf (wellCounted_flatMap_alternatives hEnds)
  exact wellCounted_sequence (List.forall_mem_append.mpr ⟨hShared, List.forall_mem_singleton.mpr hChoice⟩)

theorem wellCounted_choice (h : ∀ e ∈ es, e.WellCounted) : (choice es).WellCounted := by
  have hAll : ∀ a ∈ es.flatMap alternatives, a.WellCounted := wellCounted_flatMap_alternatives h
  have hParts : ∀ ps ∈ (es.flatMap alternatives).map parts, ∀ part ∈ ps, part.WellCounted := by
    intro ps hps
    obtain ⟨a, ha, rfl⟩ := List.mem_map.mp hps
    exact wellCounted_parts (hAll a ha)
  unfold choice
  dsimp only
  split
  · rename_i first second rest hLists
    rw [hLists] at hParts
    split
    · split
      · exact wellCounted_oneOf hAll
      · exact wellCounted_sharing
          (fun part hPart => hParts first List.mem_cons_self part (foldl_sharedStart_subset first _ hPart)) hParts
    · exact wellCounted_oneOf hAll
  · exact wellCounted_oneOf hAll

theorem wellCounted_repeated {least : Nat} {most? : Option Nat} (h : e.WellCounted)
    (hBounds : ∀ most ∈ most?, least ≤ most) : (e.repeated least most?).WellCounted := by
  have hOnce : ∀ most ∈ some (min (most?.getD 1) 1), min least 1 ≤ most := by
    intro most hMost
    obtain rfl := Option.some.inj hMost
    cases most? with
    | none => exact Nat.min_le_right _ _
    | some most =>
      have hBound := hBounds most rfl
      simp only [Option.getD_some]
      omega
  unfold repeated
  split
  rename_i least' most' hPair
  have hNew : ∀ most ∈ most', least' ≤ most := by
    split at hPair
    · obtain ⟨rfl, rfl⟩ := Prod.mk.inj hPair
      exact hOnce
    · obtain ⟨rfl, rfl⟩ := Prod.mk.inj hPair
      exact hBounds
  split
  · trivial
  · split
    · exact h
    · exact ⟨h, hNew⟩

end Expr

/-! ## Patterns -/

/-- All expressions of a group read so far are well counted. -/
structure GroupState.WellCounted (g : GroupState) : Prop where
  alternatives : ∀ e ∈ g.alternatives.map Layered.content, e.WellCounted
  items : ∀ e ∈ g.items.filterMap Layered.content, e.WellCounted

namespace GroupState.WellCounted

variable {g : GroupState}

theorem add (h : g.WellCounted) {e : Expr} (he : e.WellCounted) (depth : Nat) : (g.add e depth).WellCounted :=
  ⟨h.alternatives, List.forall_mem_cons.mpr ⟨he, h.items⟩⟩

theorem endAlternative (h : g.WellCounted) : g.endAlternative.WellCounted where
  alternatives := List.forall_mem_cons.mpr
    ⟨Expr.wellCounted_sequence fun e he => h.items e (List.mem_reverse.mp he), h.alternatives⟩
  items := List.forall_mem_nil _

theorem repeatLast? (h : g.WellCounted) {least : Nat} {most? : Option Nat}
    (hBounds : ∀ most ∈ most?, least ≤ most) {g' : GroupState} (hRepeat : g.repeatLast? least most? = some g') :
    g'.WellCounted := by
  unfold GroupState.repeatLast? at hRepeat
  split at hRepeat
  · rename_i e depth rest hItems
    split at hRepeat
    · obtain rfl := Option.some.inj hRepeat
      have hItem := h.items
      rw [hItems] at hItem
      obtain ⟨he, hRest⟩ := List.forall_mem_cons.mp hItem
      exact ⟨h.alternatives, List.forall_mem_cons.mpr ⟨Expr.wellCounted_repeated he hBounds, hRest⟩⟩
    · cases hRepeat
  · cases hRepeat

theorem result (h : g.WellCounted) : g.result.content.WellCounted :=
  Expr.wellCounted_choice fun e he => h.endAlternative.alternatives e (List.mem_reverse.mp he)

end GroupState.WellCounted

open Text (Reader)
open Text.Reader (Ensures)

theorem ensures_bounds : Ensures bounds fun b => ∀ most ∈ b.2, b.1 ≤ most := by
  unfold bounds
  refine .andThen fun first? => ?_
  cases first? with
  | none => exact .refuse
  | some least =>
    refine .andThen fun goesOn => ?_
    split
    · refine .andThen fun isOpen => ?_
      split
      · exact .pure fun _ hMost => nomatch hMost
      · refine .andThen fun second? => ?_
        cases second? with
        | none => exact .refuse
        | some most =>
          refine .andThen fun _ => ?_
          split
          · exact .pure fun _ hMost => Option.some.inj hMost ▸ ‹least ≤ most›
          · exact .refuse
    · refine .andThen fun _ => ?_
      exact .pure fun _ hMost => Option.some.inj hMost ▸ Nat.le_refl least

variable {g : GroupState}

theorem ensures_repeatLast (h : g.WellCounted) {least : Nat} {most? : Option Nat}
    (hBounds : ∀ most ∈ most?, least ≤ most) : Ensures (repeatLast g least most?) GroupState.WellCounted := by
  unfold repeatLast
  refine .andThen fun _ => ?_
  split
  · exact .pure (h.repeatLast? hBounds ‹_›)
  · exact .refuse

variable {self : Flags × Bool → Reader (Layered Expr)}

theorem ensures_group (h : g.WellCounted) (hSelf : ∀ i, Ensures (self i) fun inside => inside.content.WellCounted) :
    Ensures (group self g) GroupState.WellCounted := by
  have hNoting : Ensures (do
      let inside ← self (g.flags, true)
      return g.add (.group inside.content) (inside.depth + 1)) GroupState.WellCounted :=
    .bind (hSelf _) fun inside hInside => .pure (h.add (e := .group inside.content) hInside _)
  unfold group
  refine .andThen fun isSpecial => ?_
  split
  · refine .andThen fun isNamed => ?_
    split
    · exact .andThen fun _ => hNoting
    · refine .andThen fun isNamedToo => ?_
      split
      · exact .andThen fun _ => hNoting
      · refine .andThen fun (flags, seen, last) => ?_
        dsimp only
        split
        · exact .bind (hSelf _) fun inside hInside => .pure (h.add hInside _)
        · split
          · exact .refuse
          · exact .pure ⟨h.alternatives, h.items⟩
  · exact hNoting

theorem ensures_groupStep (h : g.WellCounted)
    (hSelf : ∀ i, Ensures (self i) fun inside => inside.content.WellCounted) (inParentheses : Bool) :
    Ensures (groupStep self inParentheses g)
      (Sum.elim GroupState.WellCounted fun inside => inside.content.WellCounted) := by
  have hSet : ∀ s depth, (g.add (.set s) depth).WellCounted := fun s depth => h.add (e := .set s) trivial depth
  have hAssertion : ∀ a depth, (g.add (.assertion a) depth).WellCounted := fun a depth =>
    h.add (e := .assertion a) trivial depth
  unfold groupStep
  refine .andThen fun text => ?_
  cases text with
  | nil =>
    dsimp only
    split
    · exact .refuse
    · exact .pure h.result
  | cons c rest =>
    refine .andThen fun _ => ?_
    dsimp only
    split
    · split
      · exact .pure h.result
      · exact .refuse
    · exact .pure h.endAlternative
    · exact .bind (ensures_group h hSelf) fun g hg => .pure hg
    · exact .andThen fun s => .pure (hSet _ _)
    · exact .bind (ensures_repeatLast h fun _ hMost => nomatch hMost) fun g hg => .pure hg
    · exact .bind (ensures_repeatLast h fun _ hMost => nomatch hMost) fun g hg => .pure hg
    · exact .bind (ensures_repeatLast h fun _ _ => Nat.zero_le _) fun g hg => .pure hg
    · refine .bind ensures_bounds fun b hb => ?_
      exact .bind (ensures_repeatLast h hb) fun g hg => .pure hg
    · exact .pure (hSet _ _)
    · exact .pure (hAssertion _ _)
    · exact .pure (hAssertion _ _)
    · refine .andThen fun e => ?_
      cases e with
      | literal c => exact .pure (hSet _ _)
      | set s => exact .pure (hSet _ _)
      | assertion a => exact .pure (hAssertion _ _)
    · exact .pure (hSet _ _)

theorem ensures_alternatives (i : Flags × Bool) :
    Ensures (alternatives i) fun inside => inside.content.WellCounted := by
  refine Ensures.levels (fun self hSelf i => ?_) _ i
  exact Ensures.loop (fun g hg => ensures_groupStep hg hSelf i.2) ⟨List.forall_mem_nil _, List.forall_mem_nil _⟩

theorem wellCounted_of_read? {pattern : String} {e : Expr} (h : read? pattern = some e) : e.WellCounted := by
  unfold read? at h
  split at h
  · rename_i whole hRead
    split at h
    · obtain rfl := Option.some.inj h
      exact Ensures.of_readAll (ensures_alternatives _) hRead
    · cases h
  · cases h

end Pattern

end Unbundle
