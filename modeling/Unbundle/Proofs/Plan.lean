/-
  Unbundle.Proofs.Plan — under which names the documents of a plan are written.

  The registry gives the file of a block its own name or one with its digest in it, or none. So the plan for any
  documents writes the file of a block in the directory for blocks, under one of these two names.

  - `mem_deliverAll`: a step of a plan is a step for one of its documents.
  - `Registry.name_of_enter`: the names that the registry gives.
  - `exists_file_of_write`: the file behind a step that writes the file of a block.
-/

import Unbundle.Plan

namespace Unbundle

namespace Registry

/-- A file is given its own name or its name with its digest. -/
theorem name_of_enter {r : Registry} {strategy : ConflictStrategy} {fileName digest name : String}
    (h : (r.enter strategy fileName digest).value.2 = some name) :
    name = fileName ∨ name = withDigest fileName digest := by
  unfold enter at h
  split at h
  · cases h
  split at h
  · left
    exact (Option.some.inj h).symm
  · cases strategy with
    | skipConflicts => cases h
    | hashSuffix =>
      right
      exact (Option.some.inj h).symm

/-- The digest stands in front of the ending. -/
theorem withDigest_append (stem digest : String) :
    withDigest (stem ++ ending) digest = stem ++ "~" ++ digest ++ ending := by
  have hEnds : ending.toList.isSuffixOf (stem ++ ending).toList = true := by
    rw [String.toList_append, List.isSuffixOf_iff_suffix]
    exact List.suffix_append _ _
  have hStem : String.ofList ((stem ++ ending).toList.take ((stem ++ ending).toList.length - ending.length)) = stem := by
    rw [String.toList_append, List.length_append, String.length_toList, String.length_toList, Nat.add_sub_cancel,
      ← String.length_toList, List.take_left, String.ofList_toList]
  unfold withDigest
  simp only [hEnds, if_true, hStem]

end Registry

namespace Plan

variable {d : Destinations} {n : Naming}

/-- A step of a plan is a step for one of its documents. -/
theorem mem_deliverAll {r : Registry} {documents : List Document} {step : Step}
    (h : step ∈ (deliverAll d n r documents).2) :
    ∃ r', ∃ document ∈ documents, step ∈ (deliver d n r' document).2 := by
  induction documents generalizing r with
  | nil => cases h
  | cons document rest ih =>
    rcases List.mem_append.mp h with h | h
    · exact ⟨r, document, List.mem_cons_self, h⟩
    · obtain ⟨r', later, hLater, hStep⟩ := ih h
      exact ⟨r', later, List.mem_cons_of_mem document hLater, hStep⟩

/-- Only the files of blocks are reported as such, and each is written under a name that the registry gave. -/
theorem exists_file_of_write {r : Registry} {documents : List Document} {path contents : String}
    (h : .write path contents (.fileWritten path) ∈ (deliverAll d n r documents).2) :
    ∃ file name, .block file ∈ documents ∧ path = Path.join d.blocks name ∧
      (name = file.fileName ∨ name = Registry.withDigest file.fileName (n.digest file.contents)) := by
  obtain ⟨r', document, hDocument, hStep⟩ := mem_deliverAll h
  cases document with
  | combined fileName text => simp [deliver] at hStep
  | opcodes fileName text => simp [deliver] at hStep
  | block file =>
    rcases List.mem_append.mp hStep with hStep | hStep
    · simp at hStep
    · obtain ⟨name, hName, hWrite⟩ := List.mem_map.mp hStep
      cases hWrite
      exact ⟨file, name, hDocument, rfl, Registry.name_of_enter (Option.mem_toList.mp hName)⟩

/-- The first file of a block is written under its own name. -/
theorem write_first_mem_deliverAll (d : Destinations) (n : Naming) (combinedName combined : String) (file : BlockFile)
    (rest : List Document) :
    .write (Path.join d.blocks file.fileName) file.contents (.fileWritten (Path.join d.blocks file.fileName)) ∈
      (deliverAll d n .empty (.combined combinedName combined :: .block file :: rest)).2 := by
  have hFirst : Registry.empty.enter n.strategy file.fileName (n.digest file.contents) =
      ⟨(Registry.empty.accept file.fileName (n.digest file.contents) false, some file.fileName), []⟩ := rfl
  simp [deliverAll, deliver, hFirst]

end Plan

end Unbundle
