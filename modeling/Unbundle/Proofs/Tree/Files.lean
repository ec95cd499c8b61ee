/-
  Unbundle.Proofs.Tree.Files — which files a tree without symbolic links holds, and what the operations on paths do to
  them.

  Where no links stand, the place that a path leads to is read off the path and the working directory (`Path.place`);
  the tree decides only whether the path leads there. So the files of a tree are told by their places, and each
  operation has one law. A file may still have several names: what is written through one of them is read through all.

  (1) `place_join`, `isPrefix_place_of_mem_way`. The place of a path, and of a file in a directory; what lies on the way
  there.

  (2) `eq_place_of_locate`. A path leads to its place or nowhere.

  (3) `grows_ensureAll`. Directories are made only where nothing stands, so no file is touched.

  (4) `of_clear`, `sheds_clearBelow`. Clearing a directory takes the names below it and no other.

  (5) `of_write`, `exists_takes_of_write`. Writing changes one file, under all its names.

  (6) `locate_of_way`. A path that leads somewhere leads there as long as no directory on the way goes away.
-/

import Mathlib.Data.List.Infix
import Unbundle.Proofs.Tree.Path

namespace Unbundle

/-! ## (1) Places of paths -/

namespace Path

/-- The place to which a part leads from another place. -/
def follow (p : Place) (part : String) : Place :=
  if isIdle part then p else if part = ".." then p.dropLast else p ++ [part]

/-- The place to which a path leads from a working directory, in every tree without symbolic links in which it leads
    anywhere. -/
def place (here : Place) (path : String) : Place := (parts path).foldl follow (if isAbsolute path then [] else here)

/-- The places that a path leads through, from the one that it begins at to its own. -/
def way (here : Place) (path : String) : List Place :=
  (origin here path (parts path)).2.scanl follow (origin here path (parts path)).1

theorem place_join (here : Place) (dir : String) {name : String} (h : IsPlain name) :
    place here (join dir name) = place here dir ++ [name] := by
  obtain ⟨hEmpty, hDot, hDots⟩ : name ≠ "" ∧ name ≠ "." ∧ name ≠ ".." := by simpa using h.2
  obtain ⟨ps, hDir, hJoin⟩ := exists_parts_join dir h.1
  have hPlace : place here dir = ps.foldl follow (if isAbsolute dir then [] else here) := by
    rcases hDir with hDir | hDir
    · rw [place, hDir]
    · rw [place, hDir, List.foldl_append]
      rfl
  rw [place, hJoin, isAbsolute_join dir h.1, List.foldl_append, ← hPlace]
  simp [follow, isIdle, hEmpty, hDot, hDots]

/-- It is the same to climb first. -/
theorem foldl_climb (p : Place) (ps : List String) : (climb p ps).2.foldl follow (climb p ps).1 = ps.foldl follow p := by
  induction ps generalizing p with
  | nil => rfl
  | cons part rest ih =>
    rw [climb, List.foldl_cons, follow]
    split
    · exact ih p
    · split
      · exact ih p.dropLast
      · rename_i hIdle hUp
        rw [List.foldl_cons, follow, if_neg hIdle, if_neg hUp]

theorem foldl_origin (here : Place) (path : String) :
    (origin here path (parts path)).2.foldl follow (origin here path (parts path)).1 = place here path := by
  unfold origin place
  split
  · rfl
  · exact foldl_climb here (parts path)

theorem isPrefix_climb (p : Place) (ps : List String) : (climb p ps).1 <+: p := by
  induction ps generalizing p with
  | nil => exact List.prefix_refl p
  | cons part rest ih =>
    rw [climb]
    split
    · exact ih p
    · split
      · exact (ih p.dropLast).trans (List.dropLast_prefix p)
      · exact List.prefix_refl p

/-- A path begins at the working directory or above it. -/
theorem isPrefix_origin (here : Place) (path : String) (ps : List String) : (origin here path ps).1 <+: here := by
  unfold origin
  split
  · exact List.nil_prefix
  · exact isPrefix_climb here ps

theorem mem_of_mem_origin {here : Place} {path part : String} {ps : List String}
    (h : part ∈ (origin here path ps).2) : part ∈ ps := by
  have hClimb : ∀ (ps : List String) (p : Place), part ∈ (climb p ps).2 → part ∈ ps := by
    intro ps
    induction ps with
    | nil => exact fun p h => h
    | cons first rest ih =>
      intro p h
      rw [climb] at h
      split at h
      · exact List.mem_cons_of_mem _ (ih p h)
      · split at h
        · exact List.mem_cons_of_mem _ (ih p.dropLast h)
        · exact h
  unfold origin at h
  split at h
  · exact h
  · exact hClimb ps here h

theorem isPrefix_follow (p : Place) {part : String} (h : part ≠ "..") : p <+: follow p part := by
  unfold follow
  by_cases hIdle : isIdle part = true
  · rw [if_pos hIdle]
  · rw [if_neg hIdle, if_neg h]
    exact List.prefix_append p [part]

theorem mem_scanl_follow (p : Place) (ps : List String) : p ∈ ps.scanl follow p := by
  cases ps with
  | nil => exact List.mem_singleton_self p
  | cons part rest =>
    rw [List.scanl_cons]
    exact List.mem_cons_self

theorem origin_mem_way (here : Place) (path : String) : (origin here path (parts path)).1 ∈ way here path :=
  mem_scanl_follow _ _

/-- Without two dots a path leads down only. -/
theorem isPrefix_place_of_mem_way {here : Place} {path : String} (h : ".." ∉ parts path) {q : Place}
    (hq : q ∈ way here path) : q <+: place here path := by
  have hDown : ∀ (ps : List String) (p : Place), ".." ∉ ps → ∀ q ∈ ps.scanl follow p, q <+: ps.foldl follow p := by
    intro ps
    induction ps with
    | nil =>
      intro p _ q hq
      rw [List.mem_singleton.mp hq]
      exact List.prefix_refl p
    | cons part rest ih =>
      intro p hDots q hq
      rw [List.mem_cons, not_or] at hDots
      obtain ⟨hPart, hRest⟩ := hDots
      rw [List.scanl_cons, List.mem_cons] at hq
      rcases hq with rfl | hq
      · exact (isPrefix_follow q (Ne.symm hPart)).trans (ih _ hRest _ (mem_scanl_follow _ rest))
      · exact ih _ hRest q hq
  rw [← foldl_origin]
  exact hDown _ _ (fun hDots => h (mem_of_mem_origin hDots)) q hq

end Path

theorem Place.isBelow_concat (dir : Place) (name : String) : Place.isBelow (dir ++ [name]) dir = true := by
  simp [isBelow]

/-- What lies behind a place below a directory lies below it too. -/
theorem Place.isBelow_of_isPrefix {p q dir : Place} (h : q.isBelow dir = true) (hPrefix : q <+: p) :
    p.isBelow dir = true := by
  simp only [isBelow, Bool.and_eq_true, List.isPrefixOf_iff_prefix, bne_iff_ne] at h ⊢
  refine ⟨h.1.trans hPrefix, ?_⟩
  rintro rfl
  exact h.2 (hPrefix.eq_of_length (Nat.le_antisymm hPrefix.length_le h.1.length_le))

/-- Of two places above a third one, the one that does not lie below the other is no longer. -/
theorem Place.length_le_of_not_isBelow {p q dir : Place} (hp : p <+: q) (hDir : dir <+: q)
    (h : p.isBelow dir = false) : p.length ≤ dir.length := by
  by_contra hLonger
  have hPrefix : dir <+: p := List.prefix_of_prefix_length_le hDir hp (by omega)
  have hBelow : p.isBelow dir = true := by
    simp only [isBelow, Bool.and_eq_true, List.isPrefixOf_iff_prefix, bne_iff_ne]
    refine ⟨hPrefix, ?_⟩
    rintro rfl
    exact hLonger (Nat.le_refl _)
  rw [h] at hBelow
  cases hBelow

namespace Tree

variable {t t' t'' : Tree} {p q : Place} {path : String} {bytes : List UInt8}

/-! ## (2) Trees without symbolic links -/

/-- No name stands for a symbolic link. -/
def LinkFree (t : Tree) : Prop := ∀ p target, t.lookup? p ≠ some (.link target)

theorem LinkFree.link?_eq_none (h : t.LinkFree) (p : Place) : t.link? p = none := by
  unfold link?
  split
  · rename_i target hLink
    exact absurd hLink (h p target)
  · rfl

theorem LinkFree.walk_cons (h : t.LinkFree) {last : Bool} {n : Nat} (p : Place) (part : String) (rest : List String) :
    t.walk last n p (part :: rest) = (t.step p part).bind fun r => t.walk last n r rest := by
  rcases hStep : t.step p part with fault | r
  · cases n <;> simp only [walk, walkWith, hStep, Except.bind]
  · exact walk_cons_of_link?_eq_none hStep (h.link?_eq_none r)

theorem step_congr (h : t.lookup? p = some .directory) (h' : t'.lookup? p = some .directory) (part : String) :
    t'.step p part = t.step p part := by
  unfold step
  rw [h, h']

/-- A step starts at a directory and follows the part. -/
theorem of_step {part : String} (h : t.step p part = .ok q) :
    t.lookup? p = some .directory ∧ q = Path.follow p part := by
  unfold step at h
  split at h
  · cases h
  swap
  · cases h
  rename_i hDirectory
  refine ⟨hDirectory, ?_⟩
  unfold Path.follow
  split at h
  · rename_i hIdle
    cases h
    rw [if_pos hIdle]
  rename_i hIdle
  rw [if_neg hIdle]
  split at h
  · rename_i hUp
    cases h
    rw [if_pos hUp]
  rename_i hUp
  rw [if_neg hUp]
  split at h
  · cases h
  · cases h
    rfl

theorem LinkFree.eq_foldl_of_walk (hLinks : t.LinkFree) {last : Bool} {n : Nat} {parts : List String}
    (h : t.walk last n p parts = .ok q) : q = parts.foldl Path.follow p := by
  induction parts generalizing p with
  | nil =>
    rw [walk_nil] at h
    cases h
    rfl
  | cons part rest ih =>
    rw [hLinks.walk_cons] at h
    rcases hStep : t.step p part with fault | r
    · rw [hStep] at h; cases h
    · rw [hStep] at h
      rw [List.foldl_cons, ← (of_step hStep).2]
      exact ih h

/-- A path leads nowhere but to its place. -/
theorem LinkFree.eq_place_of_locate (hLinks : t.LinkFree) (h : t.locate path = .ok p) :
    p = Path.place t.here path := by
  unfold locate at h
  split at h
  · cases h
  · rw [hLinks.eq_foldl_of_walk (follow_eq_ok_iff.mp h).2, Path.foldl_origin]

/-! ### Files and their names -/

/-- The number of the file at a place. -/
def number? (t : Tree) (p : Place) : Option Nat :=
  match t.lookup? p with
  | some (.file number) => some number
  | _ => none

/-- The bytes of the file at a place. -/
def fileAt? (t : Tree) (p : Place) : Option (List UInt8) := (t.number? p).map t.bytesOf

/-- One place, or two names of one file. -/
def SameFile (t : Tree) (p q : Place) : Prop := p = q ∨ t.number? p ≠ none ∧ t.number? p = t.number? q

instance (t : Tree) (p q : Place) : Decidable (t.SameFile p q) := inferInstanceAs (Decidable (_ ∨ _ ∧ _))

/-- No links: no name stands for a symbolic link, and every file has one name. -/
structure Unlinked (t : Tree) : Prop where
  linkFree : t.LinkFree
  eq_of_sameFile : ∀ p q, t.SameFile p q → p = q

theorem number?_eq_some_iff {number : Nat} : t.number? p = some number ↔ t.lookup? p = some (.file number) := by
  unfold number?
  split
  · rename_i hFile
    rw [hFile]
    simp
  · rename_i hOther
    exact ⟨nofun, fun h => absurd h (hOther number)⟩

theorem number?_congr (h : t'.lookup? p = t.lookup? p) : t'.number? p = t.number? p := by
  unfold number?
  rw [h]

theorem bytesOf_congr (h : t'.files = t.files) : t'.bytesOf = t.bytesOf := by
  funext number
  rw [bytesOf, bytesOf, h]

theorem fileAt?_eq_some_iff : t.fileAt? p = some bytes ↔ t.get? p = some (.file bytes) := by
  unfold fileAt? number? get?
  rcases t.lookup? p with _ | _ | number | target <;> simp [node?]

/-- What is read through one name of a file is read through all. -/
theorem SameFile.fileAt?_eq (h : t.SameFile p q) : t.fileAt? p = t.fileAt? q := by
  rcases h with rfl | ⟨_, hSame⟩
  · rfl
  · rw [fileAt?, fileAt?, hSame]

/-- A tree that is given by its nodes has no links. -/
theorem unlinked_of (nodes : List (Place × Node)) (here : Place) : (Tree.of nodes here).Unlinked := by
  have hNames : ∀ p e, (Tree.of nodes here).lookup? p = some e → p ≠ [] →
      ∃ (node : Node) (i : Nat), nodes[i]? = some (p, node) ∧ e = node.entry i := by
    intro p e hEntry hRoot
    rw [lookup?_of_ne_root _ hRoot, Option.map_eq_some_iff] at hEntry
    obtain ⟨⟨place, e⟩, hFound, rfl⟩ := hEntry
    obtain rfl : place = p := by simpa using List.find?_some hFound
    obtain ⟨⟨⟨place, node⟩, i⟩, hMem, hName⟩ := List.mem_map.mp (List.mem_of_find?_eq_some hFound)
    obtain ⟨rfl, rfl⟩ := Prod.mk.inj hName
    exact ⟨node, i, by simpa using List.mem_zipIdx_iff_getElem?.mp hMem, rfl⟩
  have hRoot : ∀ p number, (Tree.of nodes here).lookup? p = some (.file number) → p ≠ [] := by
    rintro p number hFile rfl
    cases hFile
  have hFiles : ∀ p number, (Tree.of nodes here).lookup? p = some (.file number) →
      ∃ bytes, nodes[number]? = some (p, .file bytes) := by
    intro p number hFile
    obtain ⟨node, i, hNode, hEntry⟩ := hNames p _ hFile (hRoot p number hFile)
    cases node with
    | directory => cases hEntry
    | file bytes =>
      cases hEntry
      exact ⟨bytes, hNode⟩
  constructor
  · intro p target hLink
    obtain ⟨node, i, _, hEntry⟩ := hNames p _ hLink (by rintro rfl; cases hLink)
    cases node <;> cases hEntry
  · rintro p q (hSame | ⟨hFile, hSame⟩)
    · exact hSame
    · obtain ⟨number, hNumber⟩ := Option.ne_none_iff_exists'.mp hFile
      obtain ⟨_, hAt⟩ := hFiles p number (number?_eq_some_iff.mp hNumber)
      obtain ⟨_, hAt'⟩ := hFiles q number (number?_eq_some_iff.mp (hSame ▸ hNumber))
      exact (Prod.mk.inj (Option.some.inj (hAt.symm.trans hAt'))).1

/-! ## (3) Directories that are made -/

/-- What stands in the first tree stands in the second, where directories may stand besides. -/
structure Grows (t t' : Tree) : Prop where
  names : ∀ p, t'.lookup? p = t.lookup? p ∨ t.lookup? p = none ∧ t'.lookup? p = some .directory
  files : t'.files = t.files
  here : t'.here = t.here
  kept : t'.kept = t.kept

theorem Grows.refl (t : Tree) : t.Grows t := ⟨fun _ => .inl rfl, rfl, rfl, rfl⟩

theorem Grows.trans (h : t.Grows t') (h' : t'.Grows t'') : t.Grows t'' where
  names p := by
    rcases h.names p with hp | ⟨hNone, hNew⟩
    · rcases h'.names p with hp' | ⟨hNone', hNew'⟩
      · exact .inl (hp'.trans hp)
      · exact .inr ⟨hp ▸ hNone', hNew'⟩
    · rcases h'.names p with hp' | ⟨hNone', _⟩
      · exact .inr ⟨hNone, hp'.trans hNew⟩
      · rw [hNew] at hNone'; cases hNone'
  files := h'.files.trans h.files
  here := h'.here.trans h.here
  kept := h'.kept.trans h.kept

theorem grows_put (h : t.lookup? p = none) : t.Grows (t.put p .directory) := by
  have hRoot : p ≠ [] := by
    rintro rfl
    rw [lookup?_root] at h; cases h
  refine ⟨fun q => ?_, rfl, rfl, rfl⟩
  by_cases hq : q = p
  · subst hq
    exact .inr ⟨h, t.lookup?_put_self _ hRoot⟩
  · exact .inl (t.lookup?_put_of_ne _ hq)

theorem grows_of_make (h : t.make path = .ok t') : t.Grows t' := by
  unfold make at h
  split at h
  · cases h
  rcases hWalk : t.follow false path (Path.partsToMake path) with fault | p
  · rw [hWalk] at h; cases h
  · rw [hWalk] at h
    simp only [Except.bind] at h
    split at h
    · cases h
    · rename_i hFree
      cases h
      exact grows_put (by simpa using hFree)

theorem grows_ensure (t : Tree) (path : String) : t.Grows (t.ensure path).1 := by
  unfold ensure
  split
  · rename_i hMake
    exact grows_of_make hMake
  · exact .refl t

theorem grows_ensureChain (t : Tree) (paths : List String) : t.Grows (t.ensureChain paths).1 := by
  induction paths generalizing t with
  | nil => exact .refl t
  | cons path above ih =>
    rw [ensureChain]
    split
    · -- nothing to make it in: the directories above come first
      have hAbove := ih t
      split
      · rename_i hMade
        rw [hMade] at hAbove
        exact hAbove.trans (grows_ensure _ path)
      · rename_i hFailed
        rw [hFailed] at hAbove
        exact hAbove
    · exact grows_ensure t path

theorem grows_ensureAll (t : Tree) (path : String) : t.Grows (t.ensureAll path).1 := by
  unfold ensureAll
  split
  · exact .refl t
  · exact grows_ensureChain t _

theorem Grows.number? (h : t.Grows t') (p : Place) : t'.number? p = t.number? p := by
  rcases h.names p with hSame | ⟨hNone, hNew⟩
  · exact number?_congr hSame
  · simp only [Tree.number?, hNone, hNew]

theorem Grows.fileAt? (h : t.Grows t') (p : Place) : t'.fileAt? p = t.fileAt? p := by
  rw [Tree.fileAt?, Tree.fileAt?, h.number? p, bytesOf_congr h.files]

theorem Grows.sameFile_iff (h : t.Grows t') : t'.SameFile p q ↔ t.SameFile p q := by
  rw [SameFile, h.number?, h.number?, SameFile]

theorem Grows.linkFree_iff (h : t.Grows t') : t'.LinkFree ↔ t.LinkFree := by
  constructor
  all_goals
    intro hLinks p target hLink
    rcases h.names p with hSame | ⟨hNone, hNew⟩
  · exact hLinks p target (hSame.trans hLink)
  · rw [hNone] at hLink; cases hLink
  · exact hLinks p target (hSame.symm.trans hLink)
  · rw [hNew] at hLink; cases hLink

/-! ## (4) Directories that are cleared -/

/-- A directory of the first tree is one of the second, and if it is the working directory or lies above it, then it is
    no more lost than it was. -/
structure Keeps (t t' : Tree) (p : Place) : Prop where
  directory : t.lookup? p = some .directory → t'.lookup? p = some .directory
  reached : p <+: t.here → p.length ≤ t.kept → p.length ≤ t'.kept

theorem Keeps.trans (hHere : t'.here = t.here) (h : t.Keeps t' p) (h' : t'.Keeps t'' p) : t.Keeps t'' p where
  directory hp := h'.directory (h.directory hp)
  reached hAbove hKept := h'.reached (hHere ▸ hAbove) (h.reached hAbove hKept)

theorem Grows.keeps (h : t.Grows t') (p : Place) : t.Keeps t' p where
  directory hp := by
    rcases h.names p with hSame | ⟨hNone, _⟩
    · exact hSame.trans hp
    · rw [hp] at hNone; cases hNone
  reached _ hKept := h.kept ▸ hKept

theorem keeps_clearBelow {dir : Place} (h : p.isBelow dir = false) : t.Keeps (t.clearBelow dir) p where
  directory hp := by rw [t.lookup?_clearBelow_of_not_isBelow h, hp]
  reached hAbove hKept := by
    unfold clearBelow
    dsimp only
    split
    · rename_i hLost
      simp only [Place.isBelow, Bool.and_eq_true, List.isPrefixOf_iff_prefix] at hLost
      exact Nat.le_min.mpr ⟨hKept, Place.length_le_of_not_isBelow hAbove hLost.1 h⟩
    · exact hKept

/-- The second tree is the first one without what stood at some places, and perhaps with more directories. -/
structure Sheds (t t' : Tree) (gone : Place → Prop) : Prop where
  number?_of_gone : ∀ p, gone p → t'.number? p = none
  number?_of_stays : ∀ p, ¬ gone p → t'.number? p = t.number? p
  keeps : ∀ p, ¬ gone p → t.Keeps t' p
  linkFree : t.LinkFree → t'.LinkFree
  files : t'.files = t.files
  here : t'.here = t.here

theorem Grows.sheds (h : t.Grows t') : t.Sheds t' fun _ => False :=
  ⟨fun _ hGone => hGone.elim, fun p _ => h.number? p, fun p _ => h.keeps p, h.linkFree_iff.mpr, h.files, h.here⟩

theorem sheds_clearBelow (t : Tree) (dir : Place) : t.Sheds (t.clearBelow dir) fun p => p.isBelow dir = true where
  number?_of_gone p hGone := by
    unfold number?
    rw [t.lookup?_clearBelow_of_isBelow hGone]
  number?_of_stays p hStays := number?_congr (t.lookup?_clearBelow_of_not_isBelow (by simpa using hStays))
  keeps p hStays := keeps_clearBelow (by simpa using hStays)
  linkFree hLinks p target hLink := by
    by_cases hGone : p.isBelow dir = true
    · rw [t.lookup?_clearBelow_of_isBelow hGone] at hLink; cases hLink
    · rw [t.lookup?_clearBelow_of_not_isBelow (by simpa using hGone)] at hLink
      exact hLinks p target hLink
  files := rfl
  here := rfl

namespace Sheds

variable {gone gone' : Place → Prop}

theorem trans (h : t.Sheds t' gone) (h' : t'.Sheds t'' gone') : t.Sheds t'' fun p => gone p ∨ gone' p where
  number?_of_gone p hGone := by
    by_cases hLater : gone' p
    · exact h'.number?_of_gone p hLater
    · rw [h'.number?_of_stays p hLater, h.number?_of_gone p (hGone.resolve_right hLater)]
  number?_of_stays p hStays := by
    obtain ⟨hFirst, hLater⟩ := not_or.mp hStays
    rw [h'.number?_of_stays p hLater, h.number?_of_stays p hFirst]
  keeps p hStays :=
    (h.keeps p (not_or.mp hStays).1).trans h.here (h'.keeps p (not_or.mp hStays).2)
  linkFree hLinks := h'.linkFree (h.linkFree hLinks)
  files := h'.files.trans h.files
  here := h'.here.trans h.here

theorem congr (h : t.Sheds t' gone) (hSame : ∀ p, gone p ↔ gone' p) : t.Sheds t' gone' :=
  ⟨fun p hGone => h.number?_of_gone p ((hSame p).mpr hGone),
    fun p hStays => h.number?_of_stays p fun hGone => hStays ((hSame p).mp hGone),
    fun p hStays => h.keeps p fun hGone => hStays ((hSame p).mp hGone), h.linkFree, h.files, h.here⟩

theorem fileAt?_of_gone (h : t.Sheds t' gone) (hGone : gone p) : t'.fileAt? p = none := by
  rw [fileAt?, h.number?_of_gone p hGone]
  rfl

theorem fileAt?_of_stays (h : t.Sheds t' gone) (hStays : ¬ gone p) : t'.fileAt? p = t.fileAt? p := by
  rw [fileAt?, fileAt?, h.number?_of_stays p hStays, bytesOf_congr h.files]

/-- Two names are those of one file if they were, and both stay. -/
theorem sameFile_iff (h : t.Sheds t' gone) :
    t'.SameFile p q ↔ p = q ∨ t.SameFile p q ∧ ¬ gone p ∧ ¬ gone q := by
  by_cases hSame : p = q
  · simp [SameFile, hSame]
  by_cases hp : gone p
  · simp [SameFile, hSame, hp, h.number?_of_gone p hp]
  by_cases hq : gone q
  · simp [SameFile, hSame, hq, h.number?_of_gone q hq]
  · simp [SameFile, hSame, hp, hq, h.number?_of_stays p hp, h.number?_of_stays q hq]

end Sheds

theorem of_clear (hLinks : t.LinkFree) (h : t.clear path = (t', none)) :
    t' = t.clearBelow (Path.place t.here path) := by
  unfold clear at h
  split at h
  · rename_i p hPlace
    cases h
    rw [hLinks.eq_place_of_locate hPlace]
  · cases h
  · cases h

/-! ## (5) Files that are written -/

/-- A file is written where a path leads: a new one, or over the one that is there. -/
theorem of_write (h : t.write path bytes = .ok t') : ∃ p, t.locate path = .ok p ∧
    (t.lookup? p = none ∧ t' = t.addFile p bytes ∨
      ∃ number, t.number? p = some number ∧ t' = t.setBytes number bytes) := by
  unfold write at h
  rcases hPlace : t.locate path with fault | p
  · rw [hPlace] at h; cases h
  rw [hPlace] at h
  refine ⟨p, rfl, ?_⟩
  simp only [Except.bind] at h
  split at h
  · rename_i hFree
    cases h
    exact .inl ⟨hFree, rfl⟩
  · rename_i number hFile
    cases h
    exact .inr ⟨number, number?_eq_some_iff.mpr hFile, rfl⟩
  · cases h
  · cases h

theorem ne_root_of_lookup?_eq_none (h : t.lookup? p = none) : p ≠ [] := by
  rintro rfl
  cases h

theorem number?_of_lookup?_eq_none (h : t.lookup? p = none) : t.number? p = none := by
  unfold number?
  rw [h]

theorem number?_addFile_self (h : t.lookup? p = none) : (t.addFile p bytes).number? p = some t.fresh :=
  number?_eq_some_iff.mpr (t.lookup?_addFile_self bytes (ne_root_of_lookup?_eq_none h))

theorem number?_addFile_of_ne (h : q ≠ p) : (t.addFile p bytes).number? q = t.number? q :=
  number?_congr (t.lookup?_addFile_of_ne bytes h)

theorem number?_ne_fresh : t.number? p ≠ some t.fresh :=
  fun h => t.ne_fresh (number?_eq_some_iff.mp h) rfl

/-- A new file is one by itself. -/
theorem sameFile_iff_of_free (h : t.lookup? p = none) : t.SameFile q p ↔ q = p := by
  rw [SameFile, number?_of_lookup?_eq_none h]
  exact or_iff_left fun hOther => hOther.1 hOther.2

theorem fileAt?_addFile (h : t.lookup? p = none) (q : Place) :
    (t.addFile p bytes).fileAt? q = if t.SameFile q p then some bytes else t.fileAt? q := by
  simp only [sameFile_iff_of_free h]
  split
  · rename_i hq
    subst hq
    rw [fileAt?, number?_addFile_self h, Option.map_some, bytesOf_addFile_self]
  · rename_i hq
    rw [fileAt?, number?_addFile_of_ne hq, fileAt?]
    rcases hNumber : t.number? q with _ | number
    · rfl
    · have hOld : number ≠ t.fresh := fun hFresh => number?_ne_fresh (hFresh ▸ hNumber)
      rw [Option.map_some, Option.map_some, t.bytesOf_addFile_of_ne p bytes hOld]

theorem fileAt?_setBytes {number : Nat} (h : t.number? p = some number) (q : Place) :
    (t.setBytes number bytes).fileAt? q = if t.SameFile q p then some bytes else t.fileAt? q := by
  have hSame : t.SameFile q p ↔ t.number? q = some number := by
    rw [SameFile, h]
    constructor
    · rintro (rfl | ⟨_, hSame⟩)
      · exact h
      · exact hSame
    · exact fun hNumber => .inr ⟨by rw [hNumber]; exact Option.some_ne_none number, hNumber⟩
  have hNumbers : (t.setBytes number bytes).number? q = t.number? q := number?_congr rfl
  simp only [hSame, fileAt?, hNumbers]
  split
  · rename_i hNumber
    rw [hNumber, Option.map_some, bytesOf_setBytes_self]
  · rename_i hOther
    rcases hNumber : t.number? q with _ | other
    · rfl
    · have hNe : other ≠ number := fun hEq => hOther (hEq ▸ hNumber)
      rw [Option.map_some, Option.map_some, t.bytesOf_setBytes_of_ne bytes hNe]

theorem sameFile_addFile_iff (h : t.lookup? p = none) {q r : Place} :
    (t.addFile p bytes).SameFile q r ↔ t.SameFile q r := by
  by_cases hSame : q = r
  · simp [SameFile, hSame]
  by_cases hq : q = p
  · subst hq
    have hOther : t.number? r ≠ some t.fresh := number?_ne_fresh
    simp [SameFile, hSame, number?_addFile_self h, number?_addFile_of_ne (Ne.symm hSame),
      number?_of_lookup?_eq_none h, Ne.symm hOther]
  by_cases hr : r = p
  · subst hr
    have hOther : t.number? q ≠ some t.fresh := number?_ne_fresh
    simp [SameFile, hSame, number?_addFile_self h, number?_addFile_of_ne hq, number?_of_lookup?_eq_none h, hOther]
  · rw [SameFile, number?_addFile_of_ne hq, number?_addFile_of_ne hr, SameFile]

/-- The second tree is the first one with a file written at a place. -/
structure Takes (t t' : Tree) (p : Place) (bytes : List UInt8) : Prop where
  fileAt? : ∀ q, t'.fileAt? q = if t.SameFile q p then some bytes else t.fileAt? q
  sameFile_iff : ∀ q r, t'.SameFile q r ↔ t.SameFile q r
  linkFree_iff : t'.LinkFree ↔ t.LinkFree
  directory : ∀ q, t.lookup? q = some .directory → t'.lookup? q = some .directory
  here : t'.here = t.here
  kept : t'.kept = t.kept

theorem takes_addFile (h : t.lookup? p = none) (bytes : List UInt8) : t.Takes (t.addFile p bytes) p bytes where
  fileAt? := fileAt?_addFile h
  sameFile_iff _ _ := sameFile_addFile_iff h
  linkFree_iff := by
    have hLink : ∀ q target, (t.addFile p bytes).lookup? q = some (.link target) ↔ t.lookup? q = some (.link target) := by
      intro q target
      by_cases hq : q = p
      · rw [hq, h, t.lookup?_addFile_self bytes (ne_root_of_lookup?_eq_none h)]
        simp
      · rw [t.lookup?_addFile_of_ne bytes hq]
    simp only [LinkFree, ne_eq, hLink]
  directory q hDirectory := by
    have hq : q ≠ p := by
      rintro rfl
      rw [h] at hDirectory
      cases hDirectory
    rw [t.lookup?_addFile_of_ne bytes hq, hDirectory]
  here := rfl
  kept := rfl

theorem takes_setBytes {number : Nat} (h : t.number? p = some number) (bytes : List UInt8) :
    t.Takes (t.setBytes number bytes) p bytes :=
  ⟨fileAt?_setBytes h, fun _ _ => Iff.rfl, Iff.rfl, fun _ => id, rfl, rfl⟩

theorem Takes.keeps (h : t.Takes t' p bytes) (q : Place) : t.Keeps t' q :=
  ⟨h.directory q, fun _ hKept => h.kept ▸ hKept⟩

/-- Writing changes one file, under all its names. -/
theorem exists_takes_of_write (h : t.write path bytes = .ok t') :
    ∃ p, t.locate path = .ok p ∧ t.Takes t' p bytes := by
  obtain ⟨p, hPlace, ⟨hFree, rfl⟩ | ⟨number, hFile, rfl⟩⟩ := of_write h
  · exact ⟨p, hPlace, takes_addFile hFree bytes⟩
  · exact ⟨p, hPlace, takes_setBytes hFile bytes⟩

/-! ## (6) Paths that stay -/

theorem walk_of_way (hLinks : t.LinkFree) (hLinks' : t'.LinkFree) {last : Bool} {n : Nat} {parts : List String}
    (h : ∀ r ∈ parts.scanl Path.follow p, t.lookup? r = some .directory → t'.lookup? r = some .directory)
    (hWalk : t.walk last n p parts = .ok q) : t'.walk last n p parts = .ok q := by
  induction parts generalizing p with
  | nil =>
    rw [walk_nil] at hWalk ⊢
    exact hWalk
  | cons part rest ih =>
    rw [List.scanl_cons] at h
    rw [hLinks.walk_cons] at hWalk
    rw [hLinks'.walk_cons]
    rcases hStep : t.step p part with fault | r
    · rw [hStep] at hWalk; cases hWalk
    · obtain ⟨hDirectory, rfl⟩ := of_step hStep
      rw [hStep] at hWalk
      rw [step_congr hDirectory (h p List.mem_cons_self hDirectory), hStep]
      exact ih (fun r hr => h r (List.mem_cons_of_mem p hr)) hWalk

/-- Only the directories on its way decide whether a path leads to its place. -/
theorem locate_of_way (hLinks : t.LinkFree) (hLinks' : t'.LinkFree) (hHere : t'.here = t.here)
    (h : ∀ r ∈ Path.way t.here path, t.Keeps t' r) (hPlace : t.locate path = .ok p) : t'.locate path = .ok p := by
  unfold locate at hPlace ⊢
  split
  · rename_i hFault
    rw [hFault] at hPlace; cases hPlace
  · rename_i hFault
    rw [hFault] at hPlace
    obtain ⟨hKept, hWalk⟩ := follow_eq_ok_iff.mp hPlace
    rw [follow_eq_ok_iff, hHere]
    have hStart := (h _ (Path.origin_mem_way t.here path)).reached (Path.isPrefix_origin _ _ _) hKept
    exact ⟨hStart, walk_of_way hLinks hLinks' (fun r hr => (h r hr).directory) hWalk⟩

theorem find?_of_locate (h : t.locate path = .ok p) : t.find? path = t.get? p := by
  rw [find?, h]

theorem isFile_of_find? (h : t.find? path = some (.file bytes)) : t.isFile path = true := by
  rw [isFile, h]

theorem read_of_find? (h : t.find? path = some (.file bytes)) : t.read path = .ok bytes := by
  unfold find? at h
  split at h
  · cases h
  · rename_i p hPlace
    simp only [read, hPlace, Except.bind, h]

theorem find?_of_read (h : t.read path = .ok bytes) : t.find? path = some (.file bytes) := by
  unfold read at h
  rcases hPlace : t.locate path with fault | p
  · rw [hPlace] at h; cases h
  rw [hPlace] at h
  rw [find?_of_locate hPlace]
  simp only [Except.bind] at h
  split at h
  · cases h
  · cases h
  · rename_i hNode
    cases h
    exact hNode

/-- The file at a place is what is read from a path that leads there. -/
theorem read_of_locate (hPlace : t.locate path = .ok p) (hFile : t.fileAt? p = some bytes) :
    t.read path = .ok bytes := by
  simp only [read, hPlace, Except.bind, fileAt?_eq_some_iff.mp hFile]

/-- What is read from a path is the file that it leads to. -/
theorem of_read (h : t.read path = .ok bytes) : ∃ p, t.locate path = .ok p ∧ t.fileAt? p = some bytes := by
  have hFound := find?_of_read h
  unfold find? at hFound
  split at hFound
  · cases hFound
  · rename_i p hPlace
    exact ⟨p, hPlace, fileAt?_eq_some_iff.mpr hFound⟩

end Tree

end Unbundle
