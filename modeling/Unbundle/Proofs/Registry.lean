/-
  Unbundle.Proofs.Registry — the names that a registry gives to files in turn.

  A file is told by its name and the digest of its contents. What it is given depends on nothing but the files before
  it (`Registry.due`): nothing if it was among them, its own name if none of them had that name, and otherwise a name
  with its digest, or nothing again.

  (1) `Remembers.enter`. A registry remembers of the files before what a decision needs, and decides by that.

  (2) `getElem?_enterAll`. So each file in a sequence gets what is due to it behind the files in front.

  (3) `nodup_enterAll`. No name is given twice: a digest stands behind a character that no identifier holds, so the
  file and its digest can be read off the name.
-/

import Mathlib.Data.List.Nodup
import Unbundle.Proofs.Plan
import Unbundle.Proofs.Text
import Unbundle.Schema.Block

namespace Unbundle

namespace Registry

/-- The names given to files in turn; each file is a name and a digest. -/
def enterAll (strategy : ConflictStrategy) : Registry → List (String × String) → List (Option String)
  | _, [] => []
  | r, (fileName, digest) :: rest =>
    let answer := (r.enter strategy fileName digest).value
    answer.2 :: enterAll strategy answer.1 rest

/-- The name that is due to a file behind others. -/
def due (strategy : ConflictStrategy) (before : List (String × String)) (file : String × String) : Option String :=
  if file ∈ before then none
  else if file.1 ∈ before.map Prod.fst then
    match strategy with
    | .hashSuffix => some (withDigest file.1 file.2)
    | .skipConflicts => none
  else some file.1

variable {strategy : ConflictStrategy} {r : Registry} {before : List (String × String)}

/-! ## (1) What a registry remembers -/

/-- The registry has admitted files of all names asked about, and, where conflicts are renamed, all files. -/
structure Remembers (strategy : ConflictStrategy) (r : Registry) (before : List (String × String)) : Prop where
  admitted : ∀ file ∈ r.admitted, file ∈ before
  names : ∀ name ∈ before.map Prod.fst, name ∈ r.admitted.map Prod.fst
  files : strategy = .hashSuffix → ∀ file ∈ before, file ∈ r.admitted

theorem remembers_empty (strategy : ConflictStrategy) : Remembers strategy empty [] where
  admitted _ h := h
  names _ h := h
  files _ _ h := h

theorem isDuplicate_iff {fileName digest : String} :
    r.isDuplicate fileName digest = true ↔ (fileName, digest) ∈ r.admitted := List.contains_iff_mem

theorem isTaken_iff {fileName : String} : r.isTaken fileName = true ↔ fileName ∈ r.admitted.map Prod.fst := by
  simp [isTaken]

namespace Remembers

theorem names_iff (h : Remembers strategy r before) {name : String} :
    name ∈ r.admitted.map Prod.fst ↔ name ∈ before.map Prod.fst := by
  constructor
  · intro hName
    obtain ⟨file, hFile, rfl⟩ := List.mem_map.mp hName
    exact List.mem_map_of_mem (h.admitted file hFile)
  · exact h.names name

/-- A file may be left out if its name is known, and it is known itself where conflicts are renamed. -/
theorem skip (h : Remembers strategy r before) {file : String × String} (hName : file.1 ∈ before.map Prod.fst)
    (hFile : strategy = .hashSuffix → file ∈ before) : Remembers strategy r.skip (before ++ [file]) where
  admitted known hKnown := List.mem_append_left _ (h.admitted known hKnown)
  names name hMem := by
    rw [List.map_append, List.mem_append] at hMem
    rcases hMem with hMem | hMem
    · exact h.names name hMem
    · obtain rfl := List.mem_singleton.mp hMem
      exact h.names _ hName
  files hSuffix known hMem := by
    rcases List.mem_append.mp hMem with hMem | hMem
    · exact h.files hSuffix known hMem
    · obtain rfl := List.mem_singleton.mp hMem
      exact h.files hSuffix _ (hFile hSuffix)

theorem accept (h : Remembers strategy r before) (fileName digest : String) (renames : Bool) :
    Remembers strategy (r.accept fileName digest renames) (before ++ [(fileName, digest)]) where
  admitted known hKnown := by
    rcases List.mem_cons.mp hKnown with rfl | hKnown
    · exact List.mem_append_right _ (List.mem_singleton_self _)
    · exact List.mem_append_left _ (h.admitted known hKnown)
  names name hMem := by
    rw [List.map_append, List.mem_append] at hMem
    rcases hMem with hMem | hMem
    · exact List.mem_cons_of_mem _ (h.names name hMem)
    · obtain rfl := List.mem_singleton.mp hMem
      exact List.mem_cons_self
  files hSuffix known hMem := by
    rcases List.mem_append.mp hMem with hMem | hMem
    · exact List.mem_cons_of_mem _ (h.files hSuffix known hMem)
    · obtain rfl := List.mem_singleton.mp hMem
      exact List.mem_cons_self

/-- A file is given what is due to it, and is remembered with the others. -/
theorem enter (h : Remembers strategy r before) (fileName digest : String) :
    (r.enter strategy fileName digest).value.2 = due strategy before (fileName, digest) ∧
      Remembers strategy (r.enter strategy fileName digest).value.1 (before ++ [(fileName, digest)]) := by
  unfold Registry.enter due
  by_cases hDuplicate : r.isDuplicate fileName digest = true
  · have hBefore : (fileName, digest) ∈ before := h.admitted _ (isDuplicate_iff.mp hDuplicate)
    rw [if_pos hDuplicate, if_pos hBefore]
    exact ⟨rfl, h.skip (List.mem_map_of_mem hBefore) fun _ => hBefore⟩
  rw [if_neg hDuplicate]
  by_cases hTaken : r.isTaken fileName = true
  · have hName : fileName ∈ before.map Prod.fst := h.names_iff.mp (isTaken_iff.mp hTaken)
    rw [if_neg (by simp [hTaken]), if_pos hName]
    cases strategy with
    | skipConflicts =>
      exact ⟨(ite_self none).symm, h.skip hName fun hSuffix => by cases hSuffix⟩
    | hashSuffix =>
      have hBefore : (fileName, digest) ∉ before :=
        fun hMem => hDuplicate (isDuplicate_iff.mpr (h.files rfl _ hMem))
      rw [if_neg hBefore]
      exact ⟨rfl, h.accept fileName digest true⟩
  · have hName : fileName ∉ before.map Prod.fst :=
      fun hMem => hTaken (isTaken_iff.mpr (h.names_iff.mpr hMem))
    have hBefore : (fileName, digest) ∉ before := fun hMem => hName (List.mem_map_of_mem (f := Prod.fst) hMem)
    rw [if_pos (by simp [hTaken]), if_neg hBefore, if_neg hName]
    exact ⟨rfl, h.accept fileName digest false⟩

end Remembers

/-! ## (2) Files in turn -/

/-- Each file gets what is due to it behind all files in front of it. -/
theorem getElem?_enterAll (h : Remembers strategy r before) (files : List (String × String)) (i : Nat) :
    (enterAll strategy r files)[i]? = files[i]?.map (due strategy (before ++ files.take i)) := by
  induction files generalizing r before i with
  | nil => rfl
  | cons file rest ih =>
    obtain ⟨hAnswer, hRemembers⟩ := h.enter file.1 file.2
    cases i with
    | zero => simp [enterAll, hAnswer]
    | succ i => simp [enterAll, ih hRemembers]

/-- What is due is the file's own name, or, where conflicts are renamed, its name with its digest. -/
theorem due_eq_some_iff {file : String × String} {name : String} : due strategy before file = some name ↔
    file ∉ before ∧ (file.1 ∉ before.map Prod.fst ∧ name = file.1 ∨
      file.1 ∈ before.map Prod.fst ∧ strategy = .hashSuffix ∧ name = withDigest file.1 file.2) := by
  unfold due
  by_cases hFile : file ∈ before
  · simp [hFile]
  by_cases hName : file.1 ∈ before.map Prod.fst
  · rw [if_neg hFile, if_pos hName]
    cases strategy <;> simp [hFile, hName, eq_comm]
  · rw [if_neg hFile, if_neg hName]
    simp [hFile, hName, eq_comm]

/-- Where conflicts are renamed, every new file is given a name. -/
theorem exists_due {file : String × String} (h : file ∉ before) : ∃ name, due .hashSuffix before file = some name := by
  unfold due
  rw [if_neg h]
  split
  · exact ⟨_, rfl⟩
  · exact ⟨_, rfl⟩

/-- Where conflicts are left out, only new names are given. -/
theorem due_skipConflicts (file : String × String) : due .skipConflicts before file =
    if file.1 ∈ before.map Prod.fst then none else some file.1 := by
  unfold due
  by_cases hFile : file ∈ before
  · rw [if_pos hFile, if_pos (List.mem_map_of_mem hFile)]
  · rw [if_neg hFile]

/-! ## (3) Names given once -/

/-- The name of a schema file: an identifier with the ending. -/
def IsSchemaFile (fileName : String) : Prop := ∃ stem, Text.IsIdentifier stem ∧ fileName = Block.fileNameOf stem

theorem withDigest_fileNameOf (stem digest : String) :
    withDigest (Block.fileNameOf stem) digest = stem ++ "~" ++ digest ++ ".proto" := withDigest_append stem digest

theorem tilde_not_mem_of_isIdentifier {stem : String} (h : Text.IsIdentifier stem) : '~' ∉ stem.toList :=
  fun hMem => absurd (h.2 _ hMem) (by decide)

/-- What stands behind an identifier and a tilde can be told from it. -/
theorem tilde_inj {stem other rest rest' : String} (h : Text.IsIdentifier stem) (h' : Text.IsIdentifier other)
    (hEq : stem ++ ("~" ++ rest) = other ++ ("~" ++ rest')) : stem = other ∧ rest = rest' := by
  have hLists : stem.toList ++ '~' :: rest.toList = other.toList ++ '~' :: rest'.toList := by
    simpa using congrArg String.toList hEq
  have hTaken : ∀ {s : String} (more : List Char), Text.IsIdentifier s →
      (s.toList ++ '~' :: more).takeWhile (· ≠ '~') = s.toList := by
    intro s more hs
    rw [List.takeWhile_append_of_pos]
    · simp
    · intro c hc
      have hTilde := tilde_not_mem_of_isIdentifier hs
      simp only [decide_eq_true_eq]
      rintro rfl
      exact hTilde hc
  have hStem : stem.toList = other.toList := by
    rw [← hTaken rest.toList h, hLists, hTaken _ h']
  obtain rfl := String.toList_inj.mp hStem
  refine ⟨rfl, String.toList_inj.mp ?_⟩
  exact (List.cons.inj (List.append_cancel_left hLists)).2

variable {fileName other digest digest' : String}

theorem withDigest_inj (h : IsSchemaFile fileName) (h' : IsSchemaFile other)
    (hEq : withDigest fileName digest = withDigest other digest') : fileName = other ∧ digest = digest' := by
  obtain ⟨stem, hStem, rfl⟩ := h
  obtain ⟨stem', hStem', rfl⟩ := h'
  simp only [withDigest_fileNameOf, String.append_assoc] at hEq
  obtain ⟨rfl, hRest⟩ := tilde_inj hStem hStem' hEq
  exact ⟨rfl, (String.append_left_inj _).mp hRest⟩

theorem withDigest_ne (h : IsSchemaFile other) : withDigest fileName digest ≠ other := by
  obtain ⟨stem, hStem, rfl⟩ := h
  intro hEq
  have hTilde : '~' ∈ (withDigest fileName digest).toList := by
    unfold withDigest
    dsimp only
    split <;> simp
  rw [hEq, Block.fileNameOf, String.toList_append, List.mem_append] at hTilde
  rcases hTilde with hTilde | hTilde
  · exact tilde_not_mem_of_isIdentifier hStem hTilde
  · exact absurd hTilde (by decide)

/-- A name is given for one file name only. -/
theorem eq_of_names {name : String} (h : IsSchemaFile fileName) (h' : IsSchemaFile other)
    (hName : name = fileName ∨ name = withDigest fileName digest)
    (hName' : name = other ∨ name = withDigest other digest') :
    fileName = other := by
  rcases hName with rfl | rfl
  · rcases hName' with hName' | hName'
    · exact hName'
    · exact absurd hName'.symm (withDigest_ne h)
  · rcases hName' with hName' | hName'
    · exact absurd hName' (withDigest_ne h')
    · exact (withDigest_inj h h' hName').1

/-- Behind a file that is given a name, none is given the same. -/
theorem due_ne {file later : String × String} {after : List (String × String)} {name name' : String}
    (hFile : IsSchemaFile file.1) (hLater : IsSchemaFile later.1) (hMem : file ∈ after)
    (h : due strategy before file = some name) (h' : due strategy after later = some name') : name ≠ name' := by
  rintro rfl
  obtain ⟨_, hOwn⟩ := due_eq_some_iff.mp h
  obtain ⟨hNew, hOwn'⟩ := due_eq_some_iff.mp h'
  have hKnown : file.1 ∈ after.map Prod.fst := List.mem_map_of_mem hMem
  rcases hOwn' with ⟨hFirst, rfl⟩ | ⟨_, _, rfl⟩
  · -- a name of its own: no file in front has it
    rcases hOwn with ⟨_, hName⟩ | ⟨_, _, hName⟩
    · exact hFirst (hName ▸ hKnown)
    · exact withDigest_ne hLater hName.symm
  · rcases hOwn with ⟨_, hName⟩ | ⟨_, _, hName⟩
    · exact withDigest_ne hFile hName
    · obtain ⟨hSame, hDigest⟩ := withDigest_inj hFile hLater hName.symm
      exact hNew (Prod.ext hSame hDigest ▸ hMem)

theorem pairwise_enterAll {files : List (String × String)} (h : ∀ file ∈ files, IsSchemaFile file.1) :
    (enterAll strategy empty files).Pairwise fun a b => ∀ name, a = some name → ∀ name', b = some name' →
      name ≠ name' := by
  rw [List.pairwise_iff_getElem]
  intro i j hi hj hLess name hName name' hName'
  have hAt := getElem?_enterAll (remembers_empty strategy) files
  obtain ⟨file, hFile, hDue⟩ : ∃ file, files[i]? = some file ∧ due strategy (files.take i) file = some name := by
    have hThis := hAt i
    rw [List.getElem?_eq_getElem hi, hName] at hThis
    simpa using hThis.symm
  obtain ⟨later, hLater, hDue'⟩ : ∃ later, files[j]? = some later ∧ due strategy (files.take j) later = some name' := by
    have hThis := hAt j
    rw [List.getElem?_eq_getElem hj, hName'] at hThis
    simpa using hThis.symm
  have hMem : file ∈ files.take j := List.mem_of_getElem? (by rw [List.getElem?_take_of_lt hLess, hFile])
  exact due_ne (h _ (List.mem_of_getElem? hFile)) (h _ (List.mem_of_getElem? hLater)) hMem hDue hDue'

/-- No name is given twice. -/
theorem nodup_enterAll {files : List (String × String)} (h : ∀ file ∈ files, IsSchemaFile file.1) :
    ((enterAll strategy empty files).filterMap id).Nodup :=
  List.pairwise_filterMap.mpr (pairwise_enterAll h)

end Registry

end Unbundle
