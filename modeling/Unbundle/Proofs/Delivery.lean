/-
  Unbundle.Proofs.Delivery — the files that a delivery leaves behind.

  (1) `writes_deliverAll_documents`, `mem_writes_blocks_iff`. What the plan for documents writes: the whole schema, the
  files of blocks that the registry gives a name to, the opcode class.

  (2) `existsUnique_lies`. Where conflicts are renamed, every name with every contents lies under one path, and two
  of them never share one.

  (3) `writes_skipConflicts`. Where they are left out, the first file of each name is written and no other.

  (4) `registry_loses_nothing`. Hence nothing that is to be written is overwritten or dropped.
-/

import Mathlib.Logic.ExistsUnique
import Unbundle.Proofs.Effect
import Unbundle.Proofs.Names
import Unbundle.Proofs.Registry

namespace Unbundle

theorem Path.join_injective (dir : String) : Function.Injective (join dir) := by
  intro name other h
  unfold join at h
  split at h
  · exact (String.append_right_inj _).mp h
  · exact (String.append_right_inj _).mp h

namespace Plan

open Registry

variable {d : Destinations} {n : Naming}

/-! ## (1) What a plan writes -/

/-- What the registry is asked about a file. -/
def Naming.ask (n : Naming) (file : BlockFile) : String × String := (file.fileName, n.digest file.contents)

theorem deliverAll_append (r : Registry) (documents more : List Document) : (deliverAll d n r (documents ++ more)).2 =
    (deliverAll d n r documents).2 ++ (deliverAll d n (deliverAll d n r documents).1 more).2 := by
  induction documents generalizing r with
  | nil => rfl
  | cons document rest ih =>
    rw [List.cons_append, deliverAll, deliverAll]
    simp only [ih, List.append_assoc]

/-- Each file of a block is written under the name that it is given. -/
theorem writes_blocks (r : Registry) (files : List BlockFile) : writes (deliverAll d n r (files.map .block)).2 =
    (files.zip (enterAll n.strategy r (files.map n.ask))).filterMap fun (file, name?) =>
      name?.map fun name => (Path.join d.blocks name, file.contents) := by
  induction files generalizing r with
  | nil => rfl
  | cons file rest ih =>
    have hReports : ∀ events : List Event, writes (events.map .report) = [] := by
      intro events
      induction events with
      | nil => rfl
      | cons event events ih => exact ih
    rw [List.map_cons, deliverAll, writes_append, ih, List.map_cons, Naming.ask, enterAll, List.zip_cons_cons,
      List.filterMap_cons]
    simp only [deliver, writes_append, hReports, List.nil_append]
    rcases (r.enter n.strategy file.fileName (n.digest file.contents)).value.2 with _ | name <;> rfl

theorem writes_deliverAll_documents (o : SplitResult) : writes (deliverAll d n .empty o.documents).2 =
    (Path.join d.combined Document.combinedFileName, o.combined) ::
      (writes (deliverAll d n .empty (o.files.map .block)).2 ++
        o.opcodes?.toList.map fun text => (Path.join d.opcodes Document.opcodesFileName, text)) := by
  have hOpcodes : ∀ r, writes (deliverAll d n r (o.opcodes?.toList.map (.opcodes Document.opcodesFileName))).2 =
      o.opcodes?.toList.map fun text => (Path.join d.opcodes Document.opcodesFileName, text) := by
    intro r
    rcases o.opcodes? with _ | text <;> rfl
  rw [SplitResult.documents, deliverAll]
  simp only [deliverAll_append, writes_append, hOpcodes]
  rfl

/-- A file is written if a name is due to it behind the files in front. -/
theorem mem_writes_blocks_iff {files : List BlockFile} {path contents : String} :
    (path, contents) ∈ writes (deliverAll d n .empty (files.map .block)).2 ↔
      ∃ i file name, files[i]? = some file ∧
        due n.strategy ((files.map n.ask).take i) (n.ask file) = some name ∧
        path = Path.join d.blocks name ∧ contents = file.contents := by
  have hAt := getElem?_enterAll (remembers_empty n.strategy) (files.map n.ask)
  rw [writes_blocks, List.mem_filterMap]
  constructor
  · rintro ⟨⟨file, name?⟩, hMem, hWrite⟩
    obtain ⟨i, hZip⟩ := List.mem_iff_getElem?.mp hMem
    obtain ⟨hFile, hName⟩ := List.getElem?_zip_eq_some.mp hZip
    obtain ⟨name, rfl, hPair⟩ := Option.map_eq_some_iff.mp hWrite
    obtain ⟨rfl, rfl⟩ := Prod.mk.inj hPair
    rw [hAt, List.getElem?_map, hFile] at hName
    exact ⟨i, file, name, hFile, Option.some.inj hName, rfl, rfl⟩
  · rintro ⟨i, file, name, hFile, hDue, rfl, rfl⟩
    refine ⟨(file, some name), List.mem_iff_getElem?.mpr ⟨i, ?_⟩, rfl⟩
    refine List.getElem?_zip_eq_some.mpr ⟨hFile, ?_⟩
    rw [hAt, List.getElem?_map, hFile]
    exact congrArg some hDue

/-- Of the members of a list that are alike, one comes first. -/
theorem exists_first {α β : Type} [DecidableEq β] (f : α → β) {l : List α} {x : α} (h : x ∈ l) :
    ∃ i first, l[i]? = some first ∧ f first = f x ∧ f x ∉ (l.map f).take i := by
  have hMem : f x ∈ l.map f := List.mem_map_of_mem h
  have hAt : (l.map f)[(l.map f).idxOf (f x)]? = some (f x) := by
    rw [List.getElem?_eq_getElem (List.idxOf_lt_length_iff.mpr hMem), List.getElem_idxOf]
  rw [List.getElem?_map] at hAt
  obtain ⟨first, hFirst, hAlike⟩ := Option.map_eq_some_iff.mp hAt
  refine ⟨_, first, hFirst, hAlike, ?_⟩
  rw [List.mem_take_iff_idxOf_lt hMem]
  exact Nat.lt_irrefl _

theorem map_fst_take_ask (files : List BlockFile) (i : Nat) :
    ((files.map n.ask).take i).map Prod.fst = (files.map BlockFile.fileName).take i := by
  rw [List.map_take, List.map_map]
  rfl

/-- Every file's own name is written under, be it for this file or for one before it. -/
theorem mem_writes_of_mem {files : List BlockFile} {file : BlockFile} (h : file ∈ files) :
    ∃ contents, (Path.join d.blocks file.fileName, contents) ∈ writes (deliverAll d n .empty (files.map .block)).2 := by
  obtain ⟨i, first, hFirst, hName, hNew⟩ := exists_first BlockFile.fileName h
  have hDue : due n.strategy ((files.map n.ask).take i) (n.ask first) = some file.fileName := by
    rw [← map_fst_take_ask, ← hName] at hNew
    exact due_eq_some_iff.mpr ⟨fun hMem => hNew (List.mem_map_of_mem hMem), .inl ⟨hNew, hName.symm⟩⟩
  exact ⟨first.contents, mem_writes_blocks_iff.mpr ⟨i, first, file.fileName, hFirst, hDue, rfl, rfl⟩⟩

/-- Files of different names are written under these names alone. -/
theorem exists_mem_of_mem_writes {files : List BlockFile} (hNames : (files.map BlockFile.fileName).Nodup)
    {path contents : String} (h : (path, contents) ∈ writes (deliverAll d n .empty (files.map .block)).2) :
    ∃ file ∈ files, path = Path.join d.blocks file.fileName := by
  obtain ⟨i, file, name, hFile, hDue, rfl, -⟩ := mem_writes_blocks_iff.mp h
  refine ⟨file, List.mem_of_getElem? hFile, ?_⟩
  obtain ⟨_, ⟨_, rfl⟩ | ⟨hTaken, _⟩⟩ := due_eq_some_iff.mp hDue
  · rfl
  · -- a file of this name in front of the file
    rw [map_fst_take_ask, Naming.ask] at hTaken
    have hMem : file.fileName ∈ files.map BlockFile.fileName := List.mem_of_mem_take hTaken
    have hLess := (List.mem_take_iff_idxOf_lt hMem).mp hTaken
    have hAt : (files.map BlockFile.fileName)[i]? = some file.fileName := by rw [List.getElem?_map, hFile]; rfl
    obtain ⟨hi, hName⟩ := List.getElem?_eq_some_iff.mp hAt
    rw [← hName, List.Nodup.idxOf_getElem hNames i hi] at hLess
    exact absurd hLess (Nat.lt_irrefl i)

/-! ## (2) Conflicts renamed -/

/-- The paths under which a file may be written. -/
def MayLieAt (d : Destinations) (digest : String → String) (file : BlockFile) (path : String) : Prop :=
  ∃ name, path = Path.join d.blocks name ∧
    (name = file.fileName ∨ name = withDigest file.fileName (digest file.contents))

/-- A file lies under a path: it was written there and, where no links lead to other files, is there to be read. -/
structure Lies (d : Destinations) (digest : String → String) (written : List (String × String)) (t : Tree)
    (file : BlockFile) (path : String) : Prop where
  mayLie : MayLieAt d digest file path
  written : (path, file.contents) ∈ written
  read : t.Unlinked → t.read path = .ok (Text.toBytes file.contents)

variable {files : List BlockFile}

theorem MayLieAt.fileName_eq {digest : String → String} {file other : BlockFile} {path : String}
    (hFile : IsSchemaFile file.fileName) (hOther : IsSchemaFile other.fileName) (h : MayLieAt d digest file path)
    (h' : MayLieAt d digest other path) : file.fileName = other.fileName := by
  obtain ⟨name, rfl, hName⟩ := h
  obtain ⟨name', hPath, hName'⟩ := h'
  obtain rfl := Path.join_injective _ hPath
  exact eq_of_names hFile hOther hName hName'

theorem mayLieAt_of_due {before : List (String × String)} {file : BlockFile} {name : String}
    (h : due n.strategy before (n.ask file) = some name) : MayLieAt d n.digest file (Path.join d.blocks name) := by
  obtain ⟨_, ⟨_, rfl⟩ | ⟨_, _, rfl⟩⟩ := due_eq_some_iff.mp h
  · exact ⟨_, rfl, .inl rfl⟩
  · exact ⟨_, rfl, .inr rfl⟩

/-- What is written is the contents of a file that may lie there. -/
theorem exists_mayLieAt_of_mem_writes {path contents : String}
    (h : (path, contents) ∈ writes (deliverAll d n .empty (files.map .block)).2) :
    ∃ file ∈ files, file.contents = contents ∧ MayLieAt d n.digest file path := by
  obtain ⟨i, file, name, hFile, hDue, rfl, rfl⟩ := mem_writes_blocks_iff.mp h
  exact ⟨file, List.mem_of_getElem? hFile, rfl, mayLieAt_of_due hDue⟩

theorem ask_mem_take {i j : Nat} {file : BlockFile} (hFile : files[i]? = some file) (h : i < j) :
    n.ask file ∈ (files.map n.ask).take j := by
  apply List.mem_of_getElem? (i := i)
  rw [List.getElem?_take_of_lt h, List.getElem?_map, hFile]
  rfl

section

variable {i j : Nat} {file other : BlockFile} {name name' : String} (hFile : files[i]? = some file)
  (hOther : files[j]? = some other) (h : due n.strategy ((files.map n.ask).take i) (n.ask file) = some name)
  (h' : due n.strategy ((files.map n.ask).take j) (n.ask other) = some name')
include hFile hOther h h'

/-- What is asked about again is given no second name. -/
theorem eq_of_ask_eq (hAsk : n.ask file = n.ask other) : i = j := by
  rcases Nat.lt_trichotomy i j with hLess | hEq | hMore
  · exact absurd (hAsk ▸ ask_mem_take hFile hLess) (due_eq_some_iff.mp h').1
  · exact hEq
  · exact absurd (hAsk ▸ ask_mem_take hOther hMore) (due_eq_some_iff.mp h).1

/-- A name that was given is not given again. -/
theorem eq_of_name_eq (hNames : ∀ file ∈ files, IsSchemaFile file.fileName) (hName : name = name') : i = j := by
  have hSchema : IsSchemaFile (n.ask file).1 := hNames _ (List.mem_of_getElem? hFile)
  have hSchema' : IsSchemaFile (n.ask other).1 := hNames _ (List.mem_of_getElem? hOther)
  rcases Nat.lt_trichotomy i j with hLess | hEq | hMore
  · exact absurd hName (due_ne hSchema hSchema' (ask_mem_take hFile hLess) h h')
  · exact hEq
  · exact absurd hName.symm (due_ne hSchema' hSchema (ask_mem_take hOther hMore) h' h)

end

/-- What is written under a path is the contents of one file. -/
theorem contents_eq_of_mem_writes (hNames : ∀ file ∈ files, IsSchemaFile file.fileName) {path contents other : String}
    (h : (path, contents) ∈ writes (deliverAll d n .empty (files.map .block)).2)
    (h' : (path, other) ∈ writes (deliverAll d n .empty (files.map .block)).2) : contents = other := by
  obtain ⟨i, file, name, hFile, hDue, rfl, rfl⟩ := mem_writes_blocks_iff.mp h
  obtain ⟨j, file', name', hFile', hDue', hPath, rfl⟩ := mem_writes_blocks_iff.mp h'
  obtain rfl := eq_of_name_eq hFile hFile' hDue hDue' hNames (Path.join_injective _ hPath)
  rw [Option.some.inj (hFile.symm.trans hFile')]

section

variable (hNames : ∀ file ∈ files, IsSchemaFile file.fileName) (hDigest : ∀ text, '/' ∉ (n.digest text).toList)
include hNames hDigest

/-- A name that is due to a file leads one level down. -/
theorem isPlain_of_due {before : List (String × String)} {file : BlockFile} {name : String} (hFile : file ∈ files)
    (h : due n.strategy before (n.ask file) = some name) : Path.IsPlain name := by
  obtain ⟨stem, hStem, hFileName⟩ := hNames file hFile
  obtain ⟨_, ⟨_, rfl⟩ | ⟨_, _, rfl⟩⟩ := due_eq_some_iff.mp h
  · rw [Naming.ask, hFileName]
    exact isPlain_append hStem (by decide)
  · rw [Naming.ask, hFileName]
    exact isPlain_withDigest hStem (hDigest _)

variable {t t' : Tree} (hTaken : (takeAll t (deliverAll d n .empty (files.map .block)).2).value = (t', none))
include hTaken

/-- Every file that was written can be read. -/
theorem read_of_mem_writes {path contents : String}
    (h : (path, contents) ∈ writes (deliverAll d n .empty (files.map .block)).2) (hSingle : t'.Unlinked) :
    t'.read path = .ok (Text.toBytes contents) := by
  have hSteps : ∀ step ∈ (deliverAll d n .empty (files.map .block)).2, step.delivers = true :=
    fun step => delivers_of_mem_deliverAll
  have hBefore := (unlinked_iff_of_takeAll hSteps hTaken).mp hSingle
  -- no other file is written at its place
  have hOnly : ∀ w ∈ writes (deliverAll d n .empty (files.map .block)).2,
      t.SameFile (Path.place t.here path) (Path.place t.here w.1) → w.2 = contents := by
    intro w hw hSame
    have hPlace := hBefore.eq_of_sameFile _ _ hSame
    obtain ⟨i, file, name, hFile, hDue, rfl, -⟩ := mem_writes_blocks_iff.mp h
    obtain ⟨j, file', name', hFile', hDue', hPath, -⟩ := mem_writes_blocks_iff.mp hw
    have hPlain := isPlain_of_due hNames hDigest (List.mem_of_getElem? hFile) hDue
    have hPlain' := isPlain_of_due hNames hDigest (List.mem_of_getElem? hFile') hDue'
    rw [hPath, Path.place_join _ _ hPlain', Path.place_join _ _ hPlain] at hPlace
    obtain rfl : name = name' := List.singleton_inj.mp (List.append_cancel_left hPlace)
    rw [← hPath] at h
    exact contents_eq_of_mem_writes hNames hw h
  refine Tree.read_of_locate (locate_of_takeAll hBefore.linkFree hSteps hTaken h) ?_
  rw [(delivered_of_takeAll hBefore.linkFree hSteps hTaken).fileAt?,
    lastWritten?_of_mem h (.inl rfl) hOnly]
  rfl

/-- Where conflicts are renamed, a file whose digest tells its contents lies under one path. -/
theorem existsUnique_lies (hSuffix : n.strategy = .hashSuffix) (hTells : ∀ file ∈ files, ∀ other ∈ files,
      n.digest file.contents = n.digest other.contents → file.contents = other.contents)
    {file : BlockFile} (hFile : file ∈ files) :
    ∃! path, Lies d n.digest (writes (deliverAll d n .empty (files.map .block)).2) t' file path := by
  -- the first file of this name and these contents
  obtain ⟨i, first, hFirst, hAsk, hNew⟩ := exists_first n.ask hFile
  have hContents := hTells first (List.mem_of_getElem? hFirst) file hFile (Prod.mk.inj hAsk).2
  obtain ⟨name, hDue⟩ := exists_due hNew
  rw [← hAsk, ← hSuffix] at hDue
  have hWritten : (Path.join d.blocks name, file.contents) ∈ writes (deliverAll d n .empty (files.map .block)).2 :=
    mem_writes_blocks_iff.mpr ⟨i, first, name, hFirst, hDue, rfl, hContents.symm⟩
  refine ⟨Path.join d.blocks name, ⟨?_, hWritten, read_of_mem_writes hNames hDigest hTaken hWritten⟩, ?_⟩
  · rw [hAsk] at hDue
    exact mayLieAt_of_due hDue
  · intro path hLies
    obtain ⟨j, other, name', hOther, hDue', rfl, hOtherContents⟩ := mem_writes_blocks_iff.mp hLies.written
    have hOtherName := (mayLieAt_of_due hDue').fileName_eq (hNames _ (List.mem_of_getElem? hOther))
      (hNames file hFile) hLies.mayLie
    have hOtherAsk : n.ask other = n.ask first := by
      rw [hAsk]
      exact Prod.ext hOtherName (congrArg n.digest hOtherContents.symm)
    obtain rfl := eq_of_ask_eq hOther hFirst hDue' hDue hOtherAsk
    obtain rfl := Option.some.inj (hOther.symm.trans hFirst)
    rw [Option.some.inj (hDue'.symm.trans hDue)]

/-- All that was written are files that lie there. -/
theorem exists_lies_of_mem_writes {path contents : String}
    (h : (path, contents) ∈ writes (deliverAll d n .empty (files.map .block)).2) :
    ∃ file ∈ files, file.contents = contents ∧
      Lies d n.digest (writes (deliverAll d n .empty (files.map .block)).2) t' file path := by
  obtain ⟨file, hFile, rfl, hMayLie⟩ := exists_mayLieAt_of_mem_writes h
  exact ⟨file, hFile, rfl, hMayLie, h, read_of_mem_writes hNames hDigest hTaken h⟩

end

/-- Files of different names or contents lie under different paths. -/
theorem eq_of_lies (hNames : ∀ file ∈ files, IsSchemaFile file.fileName) {t : Tree} {file other : BlockFile}
    {path : String} (hFile : file ∈ files) (hOther : other ∈ files)
    (h : Lies d n.digest (writes (deliverAll d n .empty (files.map .block)).2) t file path)
    (h' : Lies d n.digest (writes (deliverAll d n .empty (files.map .block)).2) t other path) :
    file.fileName = other.fileName ∧ file.contents = other.contents :=
  ⟨h.mayLie.fileName_eq (hNames _ hFile) (hNames _ hOther) h'.mayLie,
    contents_eq_of_mem_writes hNames h.written h'.written⟩

/-! ## (3) Conflicts left out -/

/-- The first file of each name, where some names are known already. -/
def firsts : List String → List BlockFile → List BlockFile
  | _, [] => []
  | known, file :: rest =>
    (if file.fileName ∈ known then [] else [file]) ++ firsts (known ++ [file.fileName]) rest

/-- Where conflicts are left out, the first file of each name is written and no other. -/
theorem writes_skipConflicts (hSkip : n.strategy = .skipConflicts) {r : Registry} {before : List (String × String)}
    (h : Remembers .skipConflicts r before) (files : List BlockFile) :
    writes (deliverAll d n r (files.map .block)).2 =
      (firsts (before.map Prod.fst) files).map fun file => (Path.join d.blocks file.fileName, file.contents) := by
  rw [writes_blocks, hSkip]
  induction files generalizing r before with
  | nil => rfl
  | cons file rest ih =>
    obtain ⟨hAnswer, hRemembers⟩ := h.enter file.fileName (n.digest file.contents)
    rw [due_skipConflicts] at hAnswer
    have hRest := ih hRemembers
    rw [List.map_append] at hRest
    rw [List.map_cons, Naming.ask, enterAll, List.zip_cons_cons, List.filterMap_cons, hAnswer, firsts, List.map_append]
    by_cases hName : file.fileName ∈ before.map Prod.fst
    · simp only [if_pos hName]
      exact hRest
    · simp only [if_neg hName]
      exact congrArg _ hRest

/-! ## (4) Nothing lost -/

/-- Where conflicts are renamed, no path is given twice; a file is given one if its name and digest are new, and it is
    its own name until that is taken. So if digests hold no slash and tell contents, every name with every contents lies
    under one path, and nothing else is written. Where conflicts are left out, the first file of each name is written. -/
theorem registry_loses_nothing (d : Destinations) :
    (∀ calls : List (String × String), (∀ call ∈ calls, IsSchemaFile call.1) →
      (((enterAll .hashSuffix .empty calls).filterMap id).map (Path.join d.blocks)).Nodup ∧
      ∀ i stem digest, calls[i]? = some (stem ++ ".proto", digest) →
        (enterAll .hashSuffix .empty calls)[i]? = some (
          if (stem ++ ".proto", digest) ∈ calls.take i then none
          else if stem ++ ".proto" ∈ (calls.take i).map Prod.fst then some (stem ++ "~" ++ digest ++ ".proto")
          else some (stem ++ ".proto"))) ∧
    ∀ (digest : String → String) (files : List BlockFile), (∀ file ∈ files, IsSchemaFile file.fileName) →
      ((∀ text, '/' ∉ (digest text).toList) → (∀ file ∈ files, ∀ other ∈ files,
          digest file.contents = digest other.contents → file.contents = other.contents) →
        ∀ t t', (takeAll t (deliverAll d ⟨.hashSuffix, digest⟩ .empty (files.map .block)).2).value = (t', none) →
          let written := writes (deliverAll d ⟨.hashSuffix, digest⟩ .empty (files.map .block)).2
          (∀ file ∈ files, (∃! path, Lies d digest written t' file path) ∧
            ∀ other ∈ files, ∀ path, Lies d digest written t' file path → Lies d digest written t' other path →
              file.fileName = other.fileName ∧ file.contents = other.contents) ∧
          ∀ w ∈ written, ∃ file ∈ files, file.contents = w.2 ∧ Lies d digest written t' file w.1) ∧
      writes (deliverAll d ⟨.skipConflicts, digest⟩ .empty (files.map .block)).2 =
        (firsts [] files).map fun file => (Path.join d.blocks file.fileName, file.contents) := by
  refine ⟨fun calls hCalls => ⟨?_, ?_⟩, fun digest files hFiles => ⟨?_, ?_⟩⟩
  · exact (nodup_enterAll hCalls).map (Path.join_injective _)
  · intro i stem digest hCall
    rw [getElem?_enterAll (remembers_empty _), hCall]
    simp only [Option.map_some, List.nil_append, due, ← withDigest_fileNameOf]
    rfl
  · intro hDigest hTells t t' hTaken written
    refine ⟨fun file hFile => ⟨?_, ?_⟩, fun w hw => ?_⟩
    · exact existsUnique_lies (n := ⟨.hashSuffix, digest⟩) hFiles hDigest hTaken rfl hTells hFile
    · intro other hOther path h h'
      exact eq_of_lies (n := ⟨.hashSuffix, digest⟩) hFiles hFile hOther h h'
    · exact exists_lies_of_mem_writes (n := ⟨.hashSuffix, digest⟩) hFiles hDigest hTaken hw
  · exact writes_skipConflicts rfl (remembers_empty _) files

/-- Files of two names, some of them repeated and some in conflict. -/
def mixedFiles : List BlockFile :=
  [("A", "1"), ("A", "2"), ("A", "1"), ("A", "3"), ("B", "1"), ("A", "2")].map fun (name, contents) =>
    ⟨Block.fileNameOf name, name, 0, contents⟩

/-- Four of these files differ in name or contents, and each lies under one path. -/
theorem mixedFiles_lie : ∃ t' : Tree,
    (takeAll .empty (deliverAll ⟨"all", "out", "java"⟩ ⟨.hashSuffix, Digest.short⟩ .empty
      (mixedFiles.map .block)).2).value = (t', none) ∧
    (∀ file ∈ mixedFiles, ∃! path, Lies ⟨"all", "out", "java"⟩ Digest.short (writes (deliverAll ⟨"all", "out", "java"⟩
      ⟨.hashSuffix, Digest.short⟩ .empty (mixedFiles.map .block)).2) t' file path) ∧
    (enterAll .hashSuffix .empty (mixedFiles.map fun file => (file.fileName, file.contents)))[3]? =
      some (some "A~3.proto") ∧
    writes (deliverAll ⟨"all", "out", "java"⟩ ⟨.skipConflicts, Digest.short⟩ .empty (mixedFiles.map .block)).2 =
      [("out/A.proto", "1"), ("out/B.proto", "1")] := by
  obtain ⟨t', hTaken⟩ := exists_takeAll_eq .empty (deliverAll ⟨"all", "out", "java"⟩
    ⟨.hashSuffix, Digest.short⟩ .empty (mixedFiles.map .block)).2 (by decide +kernel)
  have hStems : ∀ file ∈ mixedFiles, ∃ stem ∈ ["A", "B"], file.fileName = Block.fileNameOf stem := by decide
  have hNames : ∀ file ∈ mixedFiles, IsSchemaFile file.fileName := by
    intro file hFile
    obtain ⟨stem, hStem, hName⟩ := hStems file hFile
    refine ⟨stem, ?_, hName⟩
    simp only [List.mem_cons, List.not_mem_nil, or_false] at hStem
    rcases hStem with rfl | rfl
    · exact ⟨by decide, List.all_eq_true.mp (by decide)⟩
    · exact ⟨by decide, List.all_eq_true.mp (by decide)⟩
  have hTells : ∀ file ∈ mixedFiles, ∀ other ∈ mixedFiles, Digest.short file.contents = Digest.short other.contents →
      file.contents = other.contents := by decide +kernel
  obtain ⟨hCalls, hFiles⟩ := registry_loses_nothing ⟨"all", "out", "java"⟩
  obtain ⟨hSuffix, hSkip⟩ := hFiles Digest.short mixedFiles hNames
  have hFourth := (hCalls (mixedFiles.map fun file => (file.fileName, file.contents)) (by
    rintro call hCall
    obtain ⟨file, hFile, rfl⟩ := List.mem_map.mp hCall
    exact hNames file hFile)).2 3 "A" "3" rfl
  refine ⟨t', hTaken, fun file hFile => ?_, hFourth.trans (by decide), hSkip.trans (by decide)⟩
  exact ((hSuffix slash_not_mem_short hTells .empty t' hTaken).1 file hFile).1

end Plan

end Unbundle
