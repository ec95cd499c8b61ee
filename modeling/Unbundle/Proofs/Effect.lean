/-
  Unbundle.Proofs.Effect — what the steps of a plan leave of the files of a tree without symbolic links.

  A plan has two parts. Its preparations make directories, and clear them if asked to; they take names away and change
  no file. Its deliveries write files; they take nothing away, and no file gets or loses a name that it had. So the
  first part is told by the places it clears, the second by the texts it writes last, each to one file under all its
  names.

  (1) `sheds_of_prepareIn`, `sheds_of_takeAll`. The files after preparations.

  (2) `delivered_of_writeIn`, `delivered_of_takeAll`. The files after deliveries.

  (3) `locate_of_takeAll`. Behind deliveries the path of every file written still leads to it.

  (4) `fileAt?_of_plan`, `sameFile_of_plan`, `locate_of_plan`. The files behind preparations and deliveries, their
  names, and the paths to them.
-/

import Mathlib.Data.List.Induction
import Unbundle.Proofs.Plan
import Unbundle.Proofs.Tree.Files

namespace Unbundle

/-! ## Steps that succeed -/

namespace Step

/-- What a step writes, and under which path. -/
def write? : Step → Option (String × String)
  | write path contents _ => some (path, contents)
  | prepare .. | report _ => none

/-- A step of a delivery: it reports or writes a file. -/
def delivers : Step → Bool
  | prepare .. => false
  | report _ | write .. => true

variable {t t' : Tree}

theorem of_prepareIn {dir : String} {empties : Bool} (h : prepareIn t dir empties = (t', none)) :
    ∃ made, t.Grows made ∧ if empties then made.clear dir = (t', none) else t' = made := by
  have hMade := t.grows_ensureAll dir
  unfold prepareIn at h
  split at h
  · cases h
  rename_i made hEnsured
  rw [hEnsured] at hMade
  refine ⟨made, hMade, ?_⟩
  cases empties with
  | false =>
    cases h
    rfl
  | true =>
    rw [if_pos rfl] at h ⊢
    rcases hCleared : made.clear dir with ⟨cleared, _ | fault⟩
    · rw [hCleared] at h
      cases h
      rfl
    · rw [hCleared] at h
      cases h

theorem of_writeIn {path contents : String} (h : writeIn t path contents = (t', none)) :
    ∃ made, t.Grows made ∧ made.write path (Text.toBytes contents) = .ok t' := by
  have hMade := t.grows_ensureAll (Path.parent path)
  unfold writeIn at h
  split at h
  · cases h
  rename_i made hEnsured
  rw [hEnsured] at hMade
  refine ⟨made, hMade, ?_⟩
  split at h
  · cases h
  · rename_i hWritten
    cases h
    exact hWritten

end Step

namespace Plan

variable {t t' t'' : Tree} {p q : Place} {here : Place}

/-- A plan succeeds if its first step does and the others do in the tree that is left. -/
theorem takeAll_cons_eq_iff {step : Step} {rest : List Step} : (takeAll t (step :: rest)).value = (t', none) ↔
    ∃ next, step.takeIn t = (next, none) ∧ (takeAll next rest).value = (t', none) := by
  rw [takeAll]
  rcases step.takeIn t with ⟨next, _ | failure⟩
  · constructor
    · intro h
      exact ⟨next, rfl, h⟩
    · rintro ⟨_, hNext, h⟩
      cases hNext
      exact h
  · constructor
    · intro h
      cases h
    · rintro ⟨_, hNext, _⟩
      cases hNext

theorem exists_takeAll_eq (t : Tree) (steps : List Step) (h : (takeAll t steps).value.2 = none) :
    ∃ t', (takeAll t steps).value = (t', none) := ⟨_, Prod.ext rfl h⟩

theorem takeAll_append_eq_iff {steps more : List Step} : (takeAll t (steps ++ more)).value = (t', none) ↔
    ∃ next, (takeAll t steps).value = (next, none) ∧ (takeAll next more).value = (t', none) := by
  induction steps generalizing t with
  | nil =>
    constructor
    · intro h
      exact ⟨t, rfl, h⟩
    · rintro ⟨_, hNext, h⟩
      cases hNext
      exact h
  | cons step rest ih =>
    simp only [List.cons_append, takeAll_cons_eq_iff, ih]
    constructor
    · rintro ⟨first, hFirst, next, hNext, h⟩
      exact ⟨next, ⟨first, hFirst, hNext⟩, h⟩
    · rintro ⟨next, ⟨first, hFirst, hNext⟩, h⟩
      exact ⟨first, hFirst, next, hNext, h⟩

/-! ## (1) Preparations -/

/-- The place lies below one of the directories. -/
def IsBelowAny (here : Place) (dirs : List String) (p : Place) : Prop :=
  ∃ dir ∈ dirs, p.isBelow (Path.place here dir) = true

instance (here : Place) (dirs : List String) (p : Place) : Decidable (IsBelowAny here dirs p) :=
  inferInstanceAs (Decidable (∃ _ ∈ _, _))

/-- The directories of a plan. -/
def directories (d : Destinations) (hasOpcodes : Bool) : List String :=
  [d.combined, d.blocks] ++ if hasOpcodes then [d.opcodes] else []

theorem sheds_of_prepareIn (hLinks : t.LinkFree) {dir : String} {empties : Bool}
    (h : Step.prepareIn t dir empties = (t', none)) :
    t.Sheds t' fun p => empties = true ∧ p.isBelow (Path.place t.here dir) = true := by
  obtain ⟨made, hMade, hEnd⟩ := Step.of_prepareIn h
  cases empties with
  | false =>
    obtain rfl : t' = made := hEnd
    exact hMade.sheds.congr fun p => by simp
  | true =>
    obtain rfl := Tree.of_clear (hMade.linkFree_iff.mpr hLinks) hEnd
    rw [hMade.here]
    exact (hMade.sheds.trans (made.sheds_clearBelow _)).congr fun p => by simp

/-- Preparing directories takes what lies below any of them if they are emptied, whichever of them lie in one another. -/
theorem sheds_of_takeAll (hLinks : t.LinkFree) {dirs : List String} {empties : Bool}
    (h : (takeAll t (dirs.map (Step.prepare · empties))).value = (t', none)) :
    t.Sheds t' fun p => empties = true ∧ IsBelowAny t.here dirs p := by
  induction dirs generalizing t with
  | nil =>
    cases h
    exact (Tree.Grows.refl _).sheds.congr fun p => by simp [IsBelowAny]
  | cons dir rest ih =>
    obtain ⟨next, hStep, hRest⟩ := takeAll_cons_eq_iff.mp h
    have hFirst := sheds_of_prepareIn hLinks hStep
    have hLater := ih (hFirst.linkFree hLinks) hRest
    rw [hFirst.here] at hLater
    exact (hFirst.trans hLater).congr fun p => by simp [IsBelowAny, and_or_left]

/-! ## (2) Deliveries -/

/-- What steps write, in order, each text under its path. -/
def writes (steps : List Step) : List (String × String) := steps.filterMap Step.write?

/-- The text that is written last at places of a kind. -/
def lastWritten? (kind : Place → Prop) [DecidablePred kind] (here : Place) (written : List (String × String)) :
    Option String :=
  (written.reverse.find? fun w => kind (Path.place here w.1)).map Prod.snd

@[simp] theorem writes_nil : writes [] = [] := rfl

theorem writes_append (steps more : List Step) : writes (steps ++ more) = writes steps ++ writes more :=
  List.filterMap_append

theorem mem_writes_iff {steps : List Step} {path contents : String} : (path, contents) ∈ writes steps ↔
    ∃ event, .write path contents event ∈ steps := by
  rw [writes, List.mem_filterMap]
  constructor
  · rintro ⟨step, hStep, hWrite⟩
    cases step with
    | write path' contents' event =>
      cases hWrite
      exact ⟨event, hStep⟩
    | prepare dir empties => cases hWrite
    | report event => cases hWrite
  · rintro ⟨event, hStep⟩
    exact ⟨_, hStep, rfl⟩

section

variable {kind kind' : Place → Prop} [DecidablePred kind] [DecidablePred kind']

theorem lastWritten?_congr (h : ∀ p, kind p ↔ kind' p) (here : Place) (written : List (String × String)) :
    lastWritten? kind here written = lastWritten? kind' here written := by
  unfold lastWritten?
  simp only [h]

theorem lastWritten?_append (written more : List (String × String)) : lastWritten? kind here (written ++ more) =
    (lastWritten? kind here more).or (lastWritten? kind here written) := by
  unfold lastWritten?
  rw [List.reverse_append, List.find?_append, Option.map_or]

theorem lastWritten?_singleton (path contents : String) : lastWritten? kind here [(path, contents)] =
    if kind (Path.place here path) then some contents else none := by
  unfold lastWritten?
  by_cases h : kind (Path.place here path) <;> simp [h]

theorem exists_mem_of_lastWritten? {written : List (String × String)} {contents : String}
    (h : lastWritten? kind here written = some contents) :
    ∃ w ∈ written, kind (Path.place here w.1) ∧ w.2 = contents := by
  obtain ⟨w, hLast, hContents⟩ := Option.map_eq_some_iff.mp h
  have hKind := List.find?_some hLast
  exact ⟨w, List.mem_reverse.mp (List.mem_of_find?_eq_some hLast), by simpa using hKind, hContents⟩

theorem isSome_lastWritten?_iff {written : List (String × String)} :
    (lastWritten? kind here written).isSome = true ↔ ∃ w ∈ written, kind (Path.place here w.1) := by
  simp [lastWritten?]

/-- Where all that is written is one text, that text is written last. -/
theorem lastWritten?_of_mem {written : List (String × String)} {w : String × String} (h : w ∈ written)
    (hKind : kind (Path.place here w.1)) (hOnly : ∀ w' ∈ written, kind (Path.place here w'.1) → w'.2 = w.2) :
    lastWritten? kind here written = some w.2 := by
  obtain ⟨contents, hLast⟩ := Option.isSome_iff_exists.mp (isSome_lastWritten?_iff.mpr ⟨w, h, hKind⟩)
  obtain ⟨w', hw', hKind', rfl⟩ := exists_mem_of_lastWritten? hLast
  rw [hLast, hOnly w' hw' hKind']

end

/-- The second tree is what is left of the first where these texts are written: every file holds what was written last
    to it, under whichever of its names. -/
structure Delivered (t t' : Tree) (written : List (String × String)) : Prop where
  fileAt? : ∀ p, t'.fileAt? p =
    ((lastWritten? (t.SameFile p) t.here written).map Text.toBytes).or (t.fileAt? p)
  sameFile_iff : ∀ p q, t'.SameFile p q ↔ t.SameFile p q
  keeps : ∀ p, t.Keeps t' p
  linkFree : t'.LinkFree
  here : t'.here = t.here

theorem delivered_nil (hLinks : t.LinkFree) : Delivered t t [] :=
  ⟨fun _ => rfl, fun _ _ => Iff.rfl, fun _ => ⟨id, fun _ => id⟩, hLinks, rfl⟩

theorem Delivered.append {written more : List (String × String)} (h : Delivered t t' written)
    (h' : Delivered t' t'' more) : Delivered t t'' (written ++ more) where
  fileAt? p := by
    rw [h'.fileAt?, h.fileAt?, h.here, lastWritten?_append, Option.map_or, Option.or_assoc,
      lastWritten?_congr (h.sameFile_iff p)]
  sameFile_iff p q := (h'.sameFile_iff p q).trans (h.sameFile_iff p q)
  keeps p := (h.keeps p).trans h.here (h'.keeps p)
  linkFree := h'.linkFree
  here := h'.here.trans h.here

theorem delivered_of_writeIn (hLinks : t.LinkFree) {path contents : String}
    (h : Step.writeIn t path contents = (t', none)) : Delivered t t' [(path, contents)] := by
  obtain ⟨made, hMade, hWritten⟩ := Step.of_writeIn h
  obtain ⟨p, hPlace, hTakes⟩ := Tree.exists_takes_of_write hWritten
  have hLinks' := hMade.linkFree_iff.mpr hLinks
  obtain rfl := hLinks'.eq_place_of_locate hPlace
  rw [hMade.here] at hTakes
  refine ⟨fun q => ?_, fun q r => ?_, fun q => ?_, hTakes.linkFree_iff.mpr hLinks', hTakes.here.trans hMade.here⟩
  · rw [hTakes.fileAt?, lastWritten?_singleton, hMade.fileAt?]
    simp only [hMade.sameFile_iff]
    split <;> rfl
  · rw [hTakes.sameFile_iff, hMade.sameFile_iff]
  · exact (hMade.keeps q).trans hMade.here (hTakes.keeps q)

theorem delivered_of_takeIn (hLinks : t.LinkFree) {step : Step} (hStep : step.delivers = true)
    (h : step.takeIn t = (t', none)) : Delivered t t' (writes [step]) := by
  cases step with
  | prepare dir empties => cases hStep
  | report event =>
    cases h
    exact delivered_nil hLinks
  | write path contents event => exact delivered_of_writeIn hLinks h

/-- Deliveries add up. -/
theorem delivered_of_takeAll (hLinks : t.LinkFree) {steps : List Step} (hSteps : ∀ step ∈ steps, step.delivers = true)
    (h : (takeAll t steps).value = (t', none)) : Delivered t t' (writes steps) := by
  induction steps generalizing t with
  | nil =>
    cases h
    exact delivered_nil hLinks
  | cons step rest ih =>
    obtain ⟨next, hStep, hRest⟩ := takeAll_cons_eq_iff.mp h
    obtain ⟨hFirst, hLater⟩ := List.forall_mem_cons.mp hSteps
    have hNext := delivered_of_takeIn hLinks hFirst hStep
    rw [← List.singleton_append, writes_append]
    exact hNext.append (ih hNext.linkFree hLater hRest)

/-- The plan for documents consists of deliveries. -/
theorem delivers_of_mem_deliverAll {d : Destinations} {n : Naming} {r : Registry} {documents : List Document}
    {step : Step} (h : step ∈ (deliverAll d n r documents).2) : step.delivers = true := by
  obtain ⟨r', document, _, hStep⟩ := mem_deliverAll h
  cases document with
  | combined fileName text =>
    obtain rfl := List.mem_singleton.mp hStep
    rfl
  | opcodes fileName text =>
    obtain rfl := List.mem_singleton.mp hStep
    rfl
  | block file =>
    rcases List.mem_append.mp hStep with hStep | hStep
    · obtain ⟨event, _, rfl⟩ := List.mem_map.mp hStep
      rfl
    · obtain ⟨name, _, rfl⟩ := List.mem_map.mp hStep
      rfl

/-- Deliveries neither make links nor take them away. -/
theorem linkFree_iff_of_takeAll {steps : List Step} (hSteps : ∀ step ∈ steps, step.delivers = true)
    (h : (takeAll t steps).value = (t', none)) : t'.LinkFree ↔ t.LinkFree := by
  induction steps generalizing t with
  | nil =>
    cases h
    exact Iff.rfl
  | cons step rest ih =>
    obtain ⟨next, hStep, hRest⟩ := takeAll_cons_eq_iff.mp h
    obtain ⟨hFirst, hLater⟩ := List.forall_mem_cons.mp hSteps
    refine (ih hLater hRest).trans ?_
    cases step with
    | prepare dir empties => cases hFirst
    | report event =>
      cases hStep
      exact Iff.rfl
    | write path contents event =>
      obtain ⟨made, hMade, hWritten⟩ := Step.of_writeIn hStep
      obtain ⟨p, _, hTakes⟩ := Tree.exists_takes_of_write hWritten
      exact hTakes.linkFree_iff.trans hMade.linkFree_iff

/-- Nor do they give a file a second name. -/
theorem unlinked_iff_of_takeAll {steps : List Step} (hSteps : ∀ step ∈ steps, step.delivers = true)
    (h : (takeAll t steps).value = (t', none)) : t'.Unlinked ↔ t.Unlinked := by
  constructor
  · intro hSingle
    have hLinks := (linkFree_iff_of_takeAll hSteps h).mp hSingle.linkFree
    have hDelivered := delivered_of_takeAll hLinks hSteps h
    exact ⟨hLinks, fun p q hSame => hSingle.eq_of_sameFile p q ((hDelivered.sameFile_iff p q).mpr hSame)⟩
  · intro hSingle
    have hDelivered := delivered_of_takeAll hSingle.linkFree hSteps h
    exact ⟨hDelivered.linkFree, fun p q hSame => hSingle.eq_of_sameFile p q ((hDelivered.sameFile_iff p q).mp hSame)⟩

/-! ## (3) Paths of files written -/

/-- No later delivery takes away the directories on the way to a file. -/
theorem locate_of_takeAll (hLinks : t.LinkFree) {steps : List Step} (hSteps : ∀ step ∈ steps, step.delivers = true)
    (h : (takeAll t steps).value = (t', none)) {path contents : String} (hWritten : (path, contents) ∈ writes steps) :
    t'.locate path = .ok (Path.place t.here path) := by
  obtain ⟨event, hMem⟩ := mem_writes_iff.mp hWritten
  obtain ⟨before, later, rfl⟩ := List.append_of_mem hMem
  obtain ⟨hBefore, hRest⟩ := List.forall_mem_append.mp hSteps
  obtain ⟨next, hTaken, hRestTaken⟩ := takeAll_append_eq_iff.mp h
  obtain ⟨after, hWrite, hLater⟩ := takeAll_cons_eq_iff.mp hRestTaken
  obtain ⟨made, hMade, hDone⟩ := Step.of_writeIn hWrite
  obtain ⟨p, hPlace, hTakes⟩ := Tree.exists_takes_of_write hDone
  have hNext := delivered_of_takeAll hLinks hBefore hTaken
  have hLinks' := hMade.linkFree_iff.mpr hNext.linkFree
  have hAfter := hTakes.linkFree_iff.mpr hLinks'
  have hEnd := delivered_of_takeAll hAfter (List.forall_mem_cons.mp hRest).2 hLater
  have hSame := Tree.locate_of_way hLinks' hEnd.linkFree (hEnd.here.trans hTakes.here)
    (fun q _ => (hTakes.keeps q).trans hTakes.here (hEnd.keeps q)) hPlace
  rw [hSame, hLinks'.eq_place_of_locate hPlace, hMade.here, hNext.here]

/-! ## (4) Whole plans -/

/-- Two places are one, or name one file that keeps both names where all names of a kind go. -/
def StaySame (t : Tree) (gone : Place → Prop) (p q : Place) : Prop := p = q ∨ t.SameFile p q ∧ ¬ gone p ∧ ¬ gone q

instance (t : Tree) (gone : Place → Prop) [DecidablePred gone] (p q : Place) : Decidable (StaySame t gone p q) :=
  inferInstanceAs (Decidable (_ ∨ _ ∧ _ ∧ _))

/-- The places that preparations take away whatever stands there. -/
def Cleared (d : Destinations) (empties hasOpcodes : Bool) (here p : Place) : Prop :=
  empties = true ∧ IsBelowAny here (directories d hasOpcodes) p

instance (d : Destinations) (empties hasOpcodes : Bool) (here p : Place) :
    Decidable (Cleared d empties hasOpcodes here p) := inferInstanceAs (Decidable (_ ∧ _))

section

variable {d : Destinations} {empties hasOpcodes : Bool} {steps : List Step}
  (hLinks : t.LinkFree) (hSteps : ∀ step ∈ steps, step.delivers = true)
  (h : (takeAll t (preparation d empties hasOpcodes ++ steps)).value = (t', none))
include hLinks hSteps h

/-- The tree between the parts of a plan. -/
theorem exists_prepared : ∃ prepared, t.Sheds prepared (Cleared d empties hasOpcodes t.here) ∧
    (takeAll prepared steps).value = (t', none) ∧ Delivered prepared t' (writes steps) := by
  obtain ⟨prepared, hPrepared, hDelivered⟩ := takeAll_append_eq_iff.mp h
  have hSheds := sheds_of_takeAll hLinks hPrepared
  exact ⟨prepared, hSheds, hDelivered, delivered_of_takeAll (hSheds.linkFree hLinks) hSteps hDelivered⟩

/-- What was written last to a file decides; under that, what the cleared directories leave. -/
theorem fileAt?_of_plan (p : Place) : t'.fileAt? p =
    ((lastWritten? (StaySame t (Cleared d empties hasOpcodes t.here) p) t.here (writes steps)).map Text.toBytes).or
      (if Cleared d empties hasOpcodes t.here p then none else t.fileAt? p) := by
  obtain ⟨prepared, hSheds, _, hDelivered⟩ := exists_prepared hLinks hSteps h
  have hKind : ∀ q, prepared.SameFile p q ↔ StaySame t (Cleared d empties hasOpcodes t.here) p q :=
    fun q => hSheds.sameFile_iff
  rw [hDelivered.fileAt?, hSheds.here, lastWritten?_congr hKind]
  split
  · rename_i hGone
    rw [hSheds.fileAt?_of_gone hGone]
  · rename_i hStays
    rw [hSheds.fileAt?_of_stays hStays]

theorem sameFile_of_plan : t'.SameFile p q ↔ StaySame t (Cleared d empties hasOpcodes t.here) p q := by
  obtain ⟨prepared, hSheds, _, hDelivered⟩ := exists_prepared hLinks hSteps h
  exact (hDelivered.sameFile_iff p q).trans hSheds.sameFile_iff

/-- The path of every file written leads to its place. -/
theorem locate_of_mem_writes {path contents : String} (hWritten : (path, contents) ∈ writes steps) :
    t'.locate path = .ok (Path.place t.here path) := by
  obtain ⟨prepared, hSheds, hTaken, _⟩ := exists_prepared hLinks hSteps h
  rw [locate_of_takeAll (hSheds.linkFree hLinks) hSteps hTaken hWritten, hSheds.here]

/-- A path that leads somewhere still does if nothing on its way is taken away. -/
theorem locate_of_plan {path : String} (hPlace : t.locate path = .ok p)
    (hWay : ∀ q ∈ Path.way t.here path, ¬ Cleared d empties hasOpcodes t.here q) : t'.locate path = .ok p := by
  obtain ⟨prepared, hSheds, _, hDelivered⟩ := exists_prepared hLinks hSteps h
  exact Tree.locate_of_way hLinks hDelivered.linkFree (hDelivered.here.trans hSheds.here)
    (fun q hq => (hSheds.keeps q (hWay q hq)).trans hSheds.here (hDelivered.keeps q)) hPlace

end

end Plan

end Unbundle
