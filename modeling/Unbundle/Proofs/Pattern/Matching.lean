/-
  Unbundle.Proofs.Pattern.Matching — what it means that an expression matches, and that a search finds just that.

  What an expression matches depends on the text around it, since assertions look at the characters on both sides. A
  `Meaning` says which parts of a text match, given the character in front of the part and the one behind it.

  A counted repetition with fewer rounds allowed than asked for matches nothing. The search does not see this, as it
  drops a bound that is met, so what it finds is stated for expressions that are `WellCounted`.

  - `nullable_iff`: an expression is nullable where it matches the empty text.
  - `exists_derivative_iff`: after a character, some derivative matches what is left of a match.
  - `isFoundIn_iff`: a search finds an expression in a text if it matches a part of the text.
-/

import Unbundle.Pattern.Search

namespace Unbundle.Pattern

/-! ## Parts of a text -/

/-- The character in front of what follows `cs`. -/
def charBefore (before : Option Char) (cs : List Char) : Option Char := cs.getLast?.or before

/-- The character behind what stands in front of `cs`. -/
def charAfter (cs : List Char) (after : Option Char) : Option Char := cs.head?.or after

@[simp] theorem charBefore_cons (before : Option Char) (c : Char) (cs : List Char) :
    charBefore before (c :: cs) = charBefore (some c) cs := by
  cases cs with
  | nil => rfl
  | cons d ds => simp [charBefore, List.getLast?_cons]

/-- Which parts of a text match: the character in front of the part, the part, and the character behind it. -/
abbrev Meaning : Type := Option Char → List Char → Option Char → Prop

namespace Meaning

variable {M N : Meaning} {before after : Option Char} {c : Char} {cs : List Char}

/-- A part that matches `M` and behind it one that matches `N`. -/
def andThen (M N : Meaning) : Meaning := fun before cs after =>
  ∃ u v, cs = u ++ v ∧ M before u (charAfter v after) ∧ N (charBefore before u) v after

/-- `n` parts in a row. -/
def rounds (M : Meaning) : Nat → Meaning
  | 0 => fun _ cs _ => cs = []
  | n + 1 => M.andThen (M.rounds n)

/-- What is left to match behind the character `c`, with `before` in front of it. -/
def residual (M : Meaning) (before : Option Char) (c : Char) : Meaning := fun _ cs after => M before (c :: cs) after

theorem andThen_nil_iff : M.andThen N before [] after ↔ M before [] after ∧ N before [] after := by
  constructor
  · rintro ⟨u, v, hParts, hM, hN⟩
    obtain ⟨rfl, rfl⟩ := List.nil_eq_append_iff.mp hParts
    exact ⟨hM, hN⟩
  · rintro ⟨hM, hN⟩
    exact ⟨[], [], rfl, hM, hN⟩

/-- The first character belongs to the second part if the first one is empty. -/
theorem andThen_cons_iff : M.andThen N before (c :: cs) after ↔
    (M before [] (some c) ∧ N before (c :: cs) after) ∨ (M.residual before c).andThen N (some c) cs after := by
  constructor
  · rintro ⟨u, v, hParts, hM, hN⟩
    rcases List.cons_eq_append_iff.mp hParts with ⟨rfl, rfl⟩ | ⟨u, rfl, rfl⟩
    · exact .inl ⟨hM, hN⟩
    · rw [charBefore_cons] at hN
      exact .inr ⟨u, v, rfl, hM, hN⟩
  · rintro (⟨hM, hN⟩ | ⟨u, v, rfl, hM, hN⟩)
    · exact ⟨[], c :: cs, rfl, hM, hN⟩
    · refine ⟨c :: u, v, rfl, hM, ?_⟩
      rwa [charBefore_cons]

theorem rounds_nil_iff {n : Nat} : M.rounds n before [] after ↔ n = 0 ∨ M before [] after := by
  induction n with
  | zero => simp [rounds]
  | succ n ih =>
    rw [rounds, andThen_nil_iff, ih]
    constructor
    · exact fun h => .inr h.1
    · rintro (h | h)
      · cases h
      · exact ⟨h, .inr h⟩

/-- Some rounds may be empty before one takes the first character. -/
theorem rounds_cons_iff {n : Nat} : M.rounds n before (c :: cs) after ↔
    ∃ idle rest, n = idle + 1 + rest ∧ (idle = 0 ∨ M before [] (some c)) ∧
      (M.residual before c).andThen (M.rounds rest) (some c) cs after := by
  induction n with
  | zero =>
    constructor
    · intro h
      cases h
    · rintro ⟨idle, rest, hCount, _⟩
      omega
  | succ n ih =>
    rw [rounds, andThen_cons_iff, ih]
    constructor
    · rintro (⟨hIdle, idle, rest, rfl, _, hRest⟩ | hRest)
      · exact ⟨idle + 1, rest, by omega, .inr hIdle, hRest⟩
      · exact ⟨0, n, by omega, .inl rfl, hRest⟩
    · rintro ⟨idle, rest, hCount, hIdle, hRest⟩
      cases idle with
      | zero =>
        obtain rfl : n = rest := by omega
        exact .inr hRest
      | succ idle =>
        have hEmpty : M before [] (some c) := hIdle.resolve_left (Nat.succ_ne_zero idle)
        exact .inl ⟨hEmpty, idle, rest, by omega, .inr hEmpty, hRest⟩

end Meaning

/-! ## Expressions -/

namespace Expr

/-- Whether so many rounds are enough and not too many. -/
def Within (least : Nat) (most? : Option Nat) (n : Nat) : Prop := least ≤ n ∧ ∀ most ∈ most?, n ≤ most

/-- The parts of a text that an expression matches. -/
def Matches : Expr → Meaning
  | fail => fun _ _ _ => False
  | empty => fun _ cs _ => cs = []
  | set s => fun _ cs _ => ∃ c, cs = [c] ∧ s.mem c.toNat = true
  | assertion x => fun before cs after => cs = [] ∧ x.holds before after = true
  | seq x y => x.Matches.andThen y.Matches
  | alt x y => fun before cs after => x.Matches before cs after ∨ y.Matches before cs after
  | group x => x.Matches
  | times x least most? => fun before cs after => ∃ n, Within least most? n ∧ x.Matches.rounds n before cs after

/-- No repetition asks for more rounds than it allows. -/
def WellCounted : Expr → Prop
  | seq x y => x.WellCounted ∧ y.WellCounted
  | alt x y => x.WellCounted ∧ y.WellCounted
  | group x => x.WellCounted
  | times x least most? => x.WellCounted ∧ ∀ most ∈ most?, least ≤ most
  | _ => True

variable {e x y : Expr} {before after : Option Char} {c : Char} {cs : List Char}

theorem matches_seq : (seq x y).Matches = x.Matches.andThen y.Matches := rfl

/-! ## Derivatives -/

theorem nullable_iff (hWell : e.WellCounted) : e.nullable before after = true ↔ e.Matches before [] after := by
  induction e with
  | fail => simp [nullable, Matches]
  | empty => simp [nullable, Matches]
  | set s => simp [nullable, Matches]
  | assertion x => simp [nullable, Matches]
  | seq x y ihx ihy =>
    rw [nullable, Bool.and_eq_true, ihx hWell.1, ihy hWell.2, matches_seq, Meaning.andThen_nil_iff]
  | alt x y ihx ihy => rw [nullable, Bool.or_eq_true, ihx hWell.1, ihy hWell.2, Matches]
  | group x ih => rw [nullable, ih hWell, Matches]
  | times x least most? ih =>
    rw [nullable, Bool.or_eq_true, beq_iff_eq, ih hWell.1, Matches]
    constructor
    · rintro (rfl | hEmpty)
      · exact ⟨0, ⟨Nat.le_refl _, fun _ _ => Nat.zero_le _⟩, rfl⟩
      · exact ⟨least, ⟨Nat.le_refl _, hWell.2⟩, Meaning.rounds_nil_iff.mpr (.inr hEmpty)⟩
    · rintro ⟨n, ⟨hLeast, _⟩, hRounds⟩
      rcases Meaning.rounds_nil_iff.mp hRounds with rfl | hEmpty
      · exact .inl (Nat.le_zero.mp hLeast)
      · exact .inr hEmpty

theorem matches_join : (x.join y).Matches before cs after ↔ x.Matches.andThen y.Matches before cs after := by
  have hFail : ∀ M : Meaning, ¬ M.andThen fail.Matches before cs after := fun _ ⟨_, _, _, _, hNone⟩ => hNone
  unfold join
  split
  · exact iff_of_false id fun ⟨_, _, _, hNone, _⟩ => hNone
  · constructor
    · intro h
      exact ⟨[], cs, rfl, rfl, h⟩
    · rintro ⟨u, v, rfl, rfl, h⟩
      exact h
  · split
    · subst y
      exact iff_of_false id (hFail _)
    · rfl

theorem wellCounted_join (hx : x.WellCounted) (hy : y.WellCounted) : (x.join y).WellCounted := by
  unfold join
  split
  · trivial
  · exact hy
  · split
    · trivial
    · exact ⟨hx, hy⟩

/-- If the derivatives of an expression match what is left of it, they do so in front of another expression too. -/
theorem exists_join_iff {ds : List Expr} {M : Meaning}
    (hResidual : ∀ cs after, (∃ d ∈ ds, d.Matches (some c) cs after) ↔ M before (c :: cs) after) :
    (∃ d ∈ ds.map (·.join y), d.Matches (some c) cs after) ↔
      (M.residual before c).andThen y.Matches (some c) cs after := by
  constructor
  · rintro ⟨_, hMem, hJoin⟩
    obtain ⟨d, hd, rfl⟩ := List.mem_map.mp hMem
    obtain ⟨u, v, rfl, hMatch, hRest⟩ := matches_join.mp hJoin
    exact ⟨u, v, rfl, (hResidual u _).mp ⟨d, hd, hMatch⟩, hRest⟩
  · rintro ⟨u, v, rfl, hMatch, hRest⟩
    obtain ⟨d, hd, hMatch⟩ := (hResidual u _).mpr hMatch
    exact ⟨_, List.mem_map_of_mem hd, matches_join.mpr ⟨u, v, rfl, hMatch, hRest⟩⟩

/-- How many rounds are left to ask for behind a round that takes the character `c`. Rounds in front of it may have
    been empty, if the expression matches the empty text there. -/
theorem matches_times_cons_iff {least : Nat} {most? : Option Nat} (hWell : (times x least most?).WellCounted) :
    (times x least most?).Matches before (c :: cs) after ↔ most? ≠ some 0 ∧
      (x.Matches.residual before c).andThen (times x (if x.nullable before (some c) then 0 else least - 1)
        (most?.map (· - 1))).Matches (some c) cs after := by
  obtain ⟨hWell, hBounds⟩ := hWell
  have hNullable : x.nullable before (some c) = true ↔ x.Matches before [] (some c) := nullable_iff hWell
  constructor
  · rintro ⟨n, ⟨hLeast, hMost⟩, hRounds⟩
    obtain ⟨idle, rest, rfl, hIdle, u, v, rfl, hMatch, hRest⟩ := Meaning.rounds_cons_iff.mp hRounds
    refine ⟨?_, u, v, rfl, hMatch, rest, ⟨?_, ?_⟩, hRest⟩
    · rintro rfl
      have hNone := hMost 0 rfl
      omega
    · split
      · exact Nat.zero_le _
      · have hFirst : idle = 0 := hIdle.resolve_right fun h => absurd (hNullable.mpr h) ‹_›
        omega
    · intro _ hLess
      obtain ⟨most, hMem, rfl⟩ := Option.map_eq_some_iff.mp hLess
      have hAtMost := hMost most hMem
      omega
  · rintro ⟨hSome, u, v, rfl, hMatch, rest, ⟨hLeast, hMost⟩, hRest⟩
    -- rounds that are asked for and not left to match can only have been empty
    have hRoundsOf : ∀ idle, (idle = 0 ∨ x.Matches before [] (some c)) →
        x.Matches.rounds (idle + 1 + rest) before (c :: (u ++ v)) after := fun idle hIdle =>
      Meaning.rounds_cons_iff.mpr ⟨idle, rest, rfl, hIdle, u, v, rfl, hMatch, hRest⟩
    have hLeft : ∀ most ∈ most?, rest + 1 ≤ most := by
      intro most hMem
      have hAtMost := hMost (most - 1) (Option.map_eq_some_iff.mpr ⟨most, hMem, rfl⟩)
      have hPositive : most ≠ 0 := fun h => hSome (h ▸ hMem)
      omega
    by_cases hEmpty : x.nullable before (some c) = true
    · refine ⟨_, ⟨?_, ?_⟩, hRoundsOf (least - 1 - rest) (.inr (hNullable.mp hEmpty))⟩
      · omega
      · intro most hMem
        have hBound := hBounds most hMem
        have hAtMost := hLeft most hMem
        omega
    · rw [if_neg hEmpty] at hLeast
      refine ⟨_, ⟨?_, ?_⟩, hRoundsOf 0 (.inl rfl)⟩
      · omega
      · intro most hMem
        have hAtMost := hLeft most hMem
        omega

/-- A repetition without rounds left matches the empty text. -/
theorem matches_times_zero {least : Nat} (hLeast : least = 0) : (times x least (some 0)).Matches = empty.Matches := by
  subst hLeast
  funext before cs after
  apply propext
  constructor
  · rintro ⟨n, ⟨_, hMost⟩, hRounds⟩
    obtain rfl : n = 0 := Nat.le_zero.mp (hMost 0 rfl)
    exact hRounds
  · intro hEmpty
    exact ⟨0, ⟨Nat.le_refl _, fun _ _ => Nat.zero_le _⟩, hEmpty⟩

theorem exists_derivative_iff (hWell : e.WellCounted) :
    (∃ d ∈ e.derivatives before c, d.Matches (some c) cs after) ↔ e.Matches before (c :: cs) after := by
  induction e generalizing cs after with
  | fail => simp [derivatives, Matches]
  | empty => simp [derivatives, Matches]
  | assertion x => simp [derivatives, Matches]
  | set s =>
    constructor
    · rintro ⟨d, hd, hMatch⟩
      rw [derivatives] at hd
      split at hd
      · obtain rfl := List.mem_singleton.mp hd
        obtain rfl : cs = [] := hMatch
        exact ⟨c, rfl, ‹_›⟩
      · cases hd
    · rintro ⟨_, hOne, hMem⟩
      obtain ⟨rfl, rfl⟩ := List.cons.inj hOne
      have hDerivative : empty ∈ (set s).derivatives before c := by
        rw [derivatives, if_pos hMem]
        exact List.mem_singleton_self _
      exact ⟨empty, hDerivative, rfl⟩
  | seq x y ihx ihy =>
    have hFirst : (∃ d ∈ (x.derivatives before c).map (·.join y), d.Matches (some c) cs after) ↔
        (x.Matches.residual before c).andThen y.Matches (some c) cs after := exists_join_iff fun _ _ => ihx hWell.1
    rw [matches_seq, Meaning.andThen_cons_iff, ← hFirst, ← ihy hWell.2, ← nullable_iff hWell.1, derivatives]
    by_cases hEmpty : x.nullable before (some c) = true
    · simp only [hEmpty, if_true, List.mem_append, or_and_right, exists_or, true_and, or_comm]
    · simp only [hEmpty, Bool.false_eq_true, if_false, false_and, false_or]
  | alt x y ihx ihy =>
    simp only [derivatives, List.mem_append, or_and_right, exists_or, ihx hWell.1, ihy hWell.2, Matches]
  | group x ih => exact ih hWell
  | times x least most? ih =>
    rw [matches_times_cons_iff hWell, derivatives]
    by_cases hNone : most? = some 0
    · simp [hNone]
    · simp only [hNone, if_false, ne_eq, not_false_eq_true, true_and]
      rw [exists_join_iff fun _ _ => ih hWell.1]
      by_cases hLast : most?.map (· - 1) = some 0
      · -- the round that takes `c` is the last one allowed, so no more can be asked for
        obtain ⟨most, rfl, hMost⟩ := Option.map_eq_some_iff.mp hLast
        have hBound : least ≤ most := hWell.2 most rfl
        have hLeast : (if x.nullable before (some c) = true then 0 else least - 1) = 0 := by
          split
          · rfl
          · omega
        rw [if_pos hLast, hLast, matches_times_zero hLeast]
      · rw [if_neg hLast]

theorem wellCounted_derivatives (hWell : e.WellCounted) : ∀ d ∈ e.derivatives before c, d.WellCounted := by
  induction e with
  | fail => simp [derivatives]
  | empty => simp [derivatives]
  | assertion x => simp [derivatives]
  | set s =>
    intro d hd
    rw [derivatives] at hd
    split at hd
    · obtain rfl := List.mem_singleton.mp hd
      trivial
    · cases hd
  | seq x y ihx ihy =>
    have hFirst : ∀ d ∈ (x.derivatives before c).map (·.join y), d.WellCounted := by
      intro d hd
      obtain ⟨d, hFrom, rfl⟩ := List.mem_map.mp hd
      exact wellCounted_join (ihx hWell.1 d hFrom) hWell.2
    intro d hd
    rw [derivatives] at hd
    split at hd
    · exact (List.mem_append.mp hd).elim (hFirst d) (ihy hWell.2 d)
    · exact hFirst d hd
  | alt x y ihx ihy => exact fun d hd => (List.mem_append.mp hd).elim (ihx hWell.1 d) (ihy hWell.2 d)
  | group x ih => exact ih hWell
  | times x least most? ih =>
    intro d hd
    rw [derivatives] at hd
    split at hd
    · cases hd
    · obtain ⟨d, hFrom, rfl⟩ := List.mem_map.mp hd
      apply wellCounted_join (ih hWell.1 d hFrom)
      split
      · trivial
      · refine ⟨hWell.1, fun _ hLess => ?_⟩
        obtain ⟨most, hMem, rfl⟩ := Option.map_eq_some_iff.mp hLess
        have hBound := hWell.2 most hMem
        split
        · exact Nat.zero_le _
        · omega

/-! ## Searches -/

/-- Some match starts at the start of a text. -/
def StartsIn (e : Expr) (before : Option Char) (cs : List Char) : Prop :=
  ∃ part rest, cs = part ++ rest ∧ e.Matches before part rest.head?

/-- An expression matches some part of a text. -/
def Finds (e : Expr) (before : Option Char) (cs : List Char) : Prop :=
  ∃ front rest, cs = front ++ rest ∧ e.StartsIn (charBefore before front) rest

theorem startsIn_nil_iff : e.StartsIn before [] ↔ e.Matches before [] none := by
  constructor
  · rintro ⟨part, rest, hParts, hMatch⟩
    obtain ⟨rfl, rfl⟩ := List.nil_eq_append_iff.mp hParts
    exact hMatch
  · exact fun hMatch => ⟨[], [], rfl, hMatch⟩

theorem startsIn_cons_iff (hWell : e.WellCounted) : e.StartsIn before (c :: cs) ↔
    e.Matches before [] (some c) ∨ ∃ d ∈ e.derivatives before c, d.StartsIn (some c) cs := by
  constructor
  · rintro ⟨part, rest, hParts, hMatch⟩
    rcases List.cons_eq_append_iff.mp hParts with ⟨rfl, rfl⟩ | ⟨part, rfl, rfl⟩
    · exact .inl hMatch
    · obtain ⟨d, hd, hMatch⟩ := (exists_derivative_iff hWell).mpr hMatch
      exact .inr ⟨d, hd, part, rest, rfl, hMatch⟩
  · rintro (hMatch | ⟨d, hd, part, rest, rfl, hMatch⟩)
    · exact ⟨[], c :: cs, rfl, hMatch⟩
    · exact ⟨c :: part, rest, rfl, (exists_derivative_iff hWell).mp ⟨d, hd, hMatch⟩⟩

theorem finds_iff : e.Finds before cs ↔
    e.StartsIn before cs ∨ ∃ c rest, cs = c :: rest ∧ e.Finds (some c) rest := by
  constructor
  · rintro ⟨front, rest, rfl, hMatch⟩
    cases front with
    | nil => exact .inl hMatch
    | cons c front =>
      rw [charBefore_cons] at hMatch
      exact .inr ⟨c, front ++ rest, rfl, front, rest, rfl, hMatch⟩
  · rintro (hMatch | ⟨c, _, rfl, front, rest, rfl, hMatch⟩)
    · exact ⟨[], cs, rfl, hMatch⟩
    · refine ⟨c :: front, rest, rfl, ?_⟩
      rwa [charBefore_cons]

/-- A search finds the matches of running expressions that start where it stands, and the fresh ones behind. -/
theorem searchFrom_iff {fresh : Expr} (hFresh : fresh.WellCounted) {running : List Expr}
    (hRunning : ∀ e ∈ running, e.WellCounted) : searchFrom fresh running before cs = true ↔
      (∃ e ∈ running, e.StartsIn before cs) ∨ ∃ c rest, cs = c :: rest ∧ fresh.Finds (some c) rest := by
  induction cs generalizing running before with
  | nil =>
    rw [searchFrom, List.any_eq_true]
    constructor
    · rintro ⟨e, he, hNullable⟩
      exact .inl ⟨e, he, startsIn_nil_iff.mpr ((nullable_iff (hRunning e he)).mp hNullable)⟩
    · rintro (⟨e, he, hMatch⟩ | ⟨c, rest, hText, _⟩)
      · exact ⟨e, he, (nullable_iff (hRunning e he)).mpr (startsIn_nil_iff.mp hMatch)⟩
      · cases hText
  | cons c cs ih =>
    have hNext : ∀ d ∈ distinct (fresh :: running.flatMap (·.derivatives before c)), d.WellCounted := by
      intro d hd
      rcases List.mem_cons.mp (mem_distinct.mp hd) with rfl | hd
      · exact hFresh
      · obtain ⟨e, he, hd⟩ := List.mem_flatMap.mp hd
        exact wellCounted_derivatives (hRunning e he) d hd
    rw [searchFrom, Bool.or_eq_true, List.any_eq_true, ih hNext]
    constructor
    · rintro (⟨e, he, hNullable⟩ | ⟨d, hd, hMatch⟩ | hBehind)
      · exact .inl ⟨e, he, (startsIn_cons_iff (hRunning e he)).mpr (.inl ((nullable_iff (hRunning e he)).mp hNullable))⟩
      · rcases List.mem_cons.mp (mem_distinct.mp hd) with rfl | hd
        · exact .inr ⟨c, cs, rfl, finds_iff.mpr (.inl hMatch)⟩
        · obtain ⟨e, he, hd⟩ := List.mem_flatMap.mp hd
          exact .inl ⟨e, he, (startsIn_cons_iff (hRunning e he)).mpr (.inr ⟨d, hd, hMatch⟩)⟩
      · exact .inr ⟨c, cs, rfl, finds_iff.mpr (.inr hBehind)⟩
    · rintro (⟨e, he, hMatch⟩ | ⟨_, _, hText, hFound⟩)
      · rcases (startsIn_cons_iff (hRunning e he)).mp hMatch with hMatch | ⟨d, hd, hMatch⟩
        · exact .inl ⟨e, he, (nullable_iff (hRunning e he)).mpr hMatch⟩
        · refine .inr (.inl ⟨d, mem_distinct.mpr (List.mem_cons_of_mem _ ?_), hMatch⟩)
          exact List.mem_flatMap.mpr ⟨e, he, hd⟩
      · obtain ⟨rfl, rfl⟩ := List.cons.inj hText
        rcases finds_iff.mp hFound with hMatch | hBehind
        · exact .inr (.inl ⟨fresh, mem_distinct.mpr List.mem_cons_self, hMatch⟩)
        · exact .inr (.inr hBehind)

/-- Some part of a text matches. -/
def MatchesPart (e : Expr) (text : String) : Prop :=
  ∃ front part rest, text.toList = front ++ (part ++ rest) ∧ e.Matches front.getLast? part rest.head?

theorem isFoundIn_iff (hWell : e.WellCounted) {text : String} : e.isFoundIn text = true ↔ e.MatchesPart text := by
  have hSearch : e.isFoundIn text = true ↔ e.Finds none text.toList := by
    rw [isFoundIn, searchFrom_iff hWell (List.forall_mem_singleton.mpr hWell), finds_iff]
    simp only [List.mem_singleton, exists_eq_left]
  rw [hSearch]
  constructor
  · rintro ⟨front, _, hText, part, rest, rfl, hMatch⟩
    rw [charBefore, Option.or_none] at hMatch
    exact ⟨front, part, rest, hText, hMatch⟩
  · rintro ⟨front, part, rest, hText, hMatch⟩
    refine ⟨front, part ++ rest, hText, part, rest, rfl, ?_⟩
    rwa [charBefore, Option.or_none]

/-! ## Repeated sets -/

theorem rounds_set_iff {s : CharSet} {n : Nat} :
    (set s).Matches.rounds n before cs after ↔ cs.length = n ∧ ∀ c ∈ cs, s.mem c.toNat = true := by
  induction n generalizing before cs with
  | zero =>
    constructor
    · rintro rfl
      exact ⟨rfl, List.forall_mem_nil _⟩
    · exact fun h => List.length_eq_zero_iff.mp h.1
  | succ n ih =>
    constructor
    · rintro ⟨_, v, rfl, ⟨c, rfl, hMem⟩, hRest⟩
      obtain ⟨rfl, hOthers⟩ := ih.mp hRest
      exact ⟨rfl, List.forall_mem_cons.mpr ⟨hMem, hOthers⟩⟩
    · rintro ⟨hLength, hMem⟩
      cases cs with
      | nil => cases hLength
      | cons c cs =>
        obtain ⟨hFirst, hRest⟩ := List.forall_mem_cons.mp hMem
        exact ⟨[c], cs, rfl, ⟨c, rfl, hFirst⟩, ih.mpr ⟨Nat.succ.inj hLength, hRest⟩⟩

end Expr

end Unbundle.Pattern
