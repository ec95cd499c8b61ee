/-
  Unbundle.Proofs.Command.Inputs — what a run leaves of the files it read.

  A run that writes empties the directories for documents, unless it is to keep what is there, and writes into them. It
  does not ask whether anything that lies there is one of its inputs.

  (1) `exists_read_of_mem_inputPaths`. A run that gets as far as a split has read all its inputs.

  (2) `isOutput_of_mem_written`. All that a run writes lies in one of these directories.

  (3) `fileAt?_runWith_iff`, `read_runWith`. Which files are left as they were, and by which paths they are still read.

  (4) `inputs_after_run`. Where no links are in the way, inputs that lie elsewhere are safe, whatever is cleared. Those
  that lie there may be taken away or written over, and so may what links lead to from there (`not_keepsInputs`).
-/

import Unbundle.Proofs.Command.Summary

namespace Unbundle.Command

variable {around : Surroundings} {words : List String} {a : Arguments} {t : Tree} {s : Settings} {r : SplitResult}
  {events : List Event} {p : Place} {path : String} {bytes : List UInt8}

/-! ## (1) The files that are read -/

/-- The paths of the schema, the glossary, and the files with settings and with a blacklist, if there are any. -/
def inputPaths (t : Tree) (a : Arguments) (s : Settings) : List String :=
  s.inputFile :: s.mappingFile :: ((settingsPath? t a).toList ++ s.blacklist.file?.toList)

theorem exists_read_of_textAt {text : String} (h : textAt t path = .ok text) : ∃ bytes, t.read path = .ok bytes := by
  obtain ⟨bytes, hRead, _⟩ := textAt_eq_ok_iff.mp h
  exact ⟨bytes, hRead⟩

theorem exists_read_of_mem_inputPaths [Formats] (hReading : reading around a t = (.ok (s, r), events))
    (h : path ∈ inputPaths t a s) : ∃ bytes, t.read path = .ok bytes := by
  obtain ⟨g, schema, splitter, hInputs, _⟩ := exists_reading_iff.mp ⟨events, hReading⟩
  simp only [inputPaths, List.mem_cons, List.mem_append, Option.mem_toList] at h
  rcases h with rfl | rfl | hSettings | hBlacklist
  · exact exists_read_of_textAt hInputs.schema
  · obtain ⟨bytes, _, hRead, _⟩ := hInputs.glossary
    exact ⟨bytes, hRead⟩
  · obtain ⟨text, _, hText, _⟩ := exists_settles_iff.mp ⟨s, hInputs.settings⟩ path hSettings
    exact exists_read_of_textAt hText
  · have hNames := (exists_makesSplitter_iff.mp ⟨splitter, hInputs.splitter⟩).2
    obtain ⟨text, _, hText, _⟩ := exists_resolve_iff.mp hNames path hBlacklist
    exact exists_read_of_textAt hText

/-! ## (2) The directories that are written to -/

theorem isOutput_join {here : Place} {dir name : String}
    (hDir : dir ∈ Plan.directories (.ofSettings s) s.opcodes.enabled) (hName : Path.IsPlain name) : IsOutput s here (Path.place here (Path.join dir name)) := by
  refine ⟨dir, hDir, ?_⟩
  rw [Path.place_join here dir hName]
  exact Place.isBelow_concat _ _

/-- All that a run writes lies in these directories. -/
theorem isOutput_of_mem_written [Formats] (hReading : reading around a t = (.ok (s, r), events))
    (hDigest : ∀ text, '/' ∉ (around.digest text).toList) (here : Place) {w : String × String}
    (hw : w ∈ written around a s r) : IsOutput s here (Path.place here w.1) := by
  rw [written_eq, List.mem_cons, List.mem_append] at hw
  rcases hw with rfl | hBlock | hOpcodes
  · exact isOutput_join List.mem_cons_self (by decide)
  · obtain ⟨name, _, hPath, hPlain, _⟩ :=
      Plan.exists_name_of_mem_blockWrites (isSchemaFile_of_reading hReading) hDigest hBlock
    rw [hPath]
    exact isOutput_join (List.mem_cons_of_mem _ List.mem_cons_self) hPlain
  · obtain ⟨text, hText, rfl⟩ := List.mem_map.mp hOpcodes
    have hEnabled : s.opcodes.enabled = true := by
      rw [← isSome_opcodes hReading, Option.mem_toList.mp hText, Option.isSome_some]
    refine isOutput_join ?_ (by decide)
    rw [Plan.directories, if_pos hEnabled]
    exact List.mem_append_right _ List.mem_cons_self

/-- Where a path leads down only, nothing on its way is taken away unless the end is. -/
theorem not_emptied_of_mem_way {here : Place} (hDots : ".." ∉ Path.parts path)
    (h : ¬ Emptied s here (Path.place here path)) {q : Place} (hq : q ∈ Path.way here path) : ¬ Emptied s here q := by
  rintro ⟨hClears, dir, hDir, hBelow⟩
  exact h ⟨hClears, dir, hDir, Place.isBelow_of_isPrefix hBelow (Path.isPrefix_place_of_mem_way hDots hq)⟩

/-! ## (3) Files left as they were -/

/-- The arguments ask for lines, not for files. -/
def Arguments.ShowOnly (a : Arguments) : Prop := a.listOnly = true ∨ a.dryRun = true

instance (a : Arguments) : Decidable a.ShowOnly := inferInstanceAs (Decidable (_ ∨ _))

/-- A run leaves a file with these bytes at the place as it was: no files are asked for, or the last text written to the
    file is the same, or none is and the place is not emptied. -/
def Spares (around : Surroundings) (a : Arguments) (s : Settings) (r : SplitResult) (t : Tree) (p : Place)
    (bytes : List UInt8) : Prop :=
  a.ShowOnly ∨
    match lastText? around a s r t p with
    | some contents => Text.toBytes contents = bytes
    | none => ¬ Emptied s t.here p

theorem not_spares_of_emptied (hFiles : ¬ a.ShowOnly) (hLast : lastText? around a s r t p = none)
    (h : Emptied s t.here p) : ¬ Spares around a s r t p bytes := by
  rw [Spares, hLast]
  exact not_or.mpr ⟨hFiles, not_not.mpr h⟩

theorem spares_iff_of_written (hFiles : ¬ a.ShowOnly) {contents : String}
    (hLast : lastText? around a s r t p = some contents) :
    Spares around a s r t p bytes ↔ Text.toBytes contents = bytes := by
  rw [Spares, hLast, or_iff_right hFiles]

/-- Nothing is done to a file all of whose names lie outside the directories for documents. -/
theorem spares_of_not_isOutput [Formats] (hReading : reading around a t = (.ok (s, r), events))
    (hDigest : ∀ text, '/' ∉ (around.digest text).toList) (h : ∀ q, t.SameFile p q → ¬ IsOutput s t.here q)
    (bytes : List UInt8) : Spares around a s r t p bytes := by
  refine .inr ?_
  split
  · rename_i contents hLast
    obtain ⟨w, hw, hSame, _⟩ := Plan.exists_mem_of_lastWritten? hLast
    refine absurd (isOutput_of_mem_written hReading hDigest t.here hw) (h _ ?_)
    exact hSame.elim .inl And.left
  · exact fun hEmptied => h p (.inl rfl) hEmptied.2

/-- A run that succeeds leaves the tree as it was, if no files are asked for, or takes all steps of its plan. -/
theorem tree_runWith [Formats] (hReading : reading around a t = (.ok (s, r), events))
    (hDone : (runWith around a t).exitCode = 0) :
    a.ShowOnly ∧ (runWith around a t).tree = t ∨
      ¬ a.ShowOnly ∧ (Plan.takeAll t (plan around a s r)).value = ((runWith around a t).tree, none) := by
  by_cases hMode : a.ShowOnly
  · have hFree : ¬ Obstacle t a := by
      intro hObstacle
      rw [(runWith_of_obstacle around hObstacle).1] at hDone
      cases hDone
    exact .inl ⟨hMode, (runWith_of_mode around hMode hFree).2⟩
  · obtain ⟨hList, hDry⟩ := not_or.mp hMode
    exact .inr ⟨hMode, takeAll_of_exitCode (by simpa using hList) (by simpa using hDry) hReading hDone⟩

section

variable [Formats] (hLinks : t.LinkFree) (hReading : reading around a t = (.ok (s, r), events))
  (hDone : (runWith around a t).exitCode = 0)
include hLinks hReading hDone

/-- A file is left as it was if and only if the run spares it. -/
theorem fileAt?_runWith_iff (hFile : t.fileAt? p = some bytes) :
    (runWith around a t).tree.fileAt? p = some bytes ↔ Spares around a s r t p bytes := by
  rcases tree_runWith hReading hDone with ⟨hMode, hTree⟩ | ⟨hFiles, hTaken⟩
  · rw [hTree]
    exact ⟨fun _ => .inl hMode, fun _ => hFile⟩
  have hLeft := fileAt?_of_taken hLinks hReading hTaken p
  rcases hLast : lastText? around a s r t p with _ | contents
  · rw [hLeft, hLast, Option.map_none, Option.none_or]
    by_cases hEmptied : Emptied s t.here p
    · rw [if_pos hEmptied]
      exact ⟨nofun, fun hSpared => absurd hSpared (not_spares_of_emptied hFiles hLast hEmptied)⟩
    · rw [if_neg hEmptied, Spares, hLast]
      exact ⟨fun _ => .inr hEmptied, fun _ => hFile⟩
  · rw [hLeft, hLast, spares_iff_of_written hFiles hLast, Option.map_some, Option.some_or, Option.some_inj]

/-- What is left is still read by the same path if all directories on its way are. -/
theorem read_runWith (hPlace : t.locate path = .ok p) (hLeft : (runWith around a t).tree.fileAt? p = some bytes)
    (hWay : ∀ q ∈ Path.way t.here path, ¬ Emptied s t.here q) : (runWith around a t).tree.read path = .ok bytes := by
  refine Tree.read_of_locate ?_ hLeft
  rcases tree_runWith hReading hDone with ⟨_, hTree⟩ | ⟨_, hTaken⟩
  · rw [hTree]
    exact hPlace
  · refine Plan.locate_of_plan hLinks (delivers_of_mem_documents s _ r) hTaken hPlace fun q hq => ?_
    rw [isSome_opcodes hReading]
    exact hWay q hq

end

/-! ## (4) Inputs behind a run -/

/-- A run that succeeds, in a tree without symbolic links, has read all its inputs. Behind it each of them holds what it
    held if and only if the run spares it, as it does if no name of the input lies in one of the directories for
    documents. What is left, and was not taken away in between, can be read by the same path, unless the path climbs out
    of a directory that was. -/
theorem inputs_after_run [Formats] [CommandLine] (around : Surroundings)
    (hDigest : ∀ text, '/' ∉ (around.digest text).toList) (words : List String) (t : Tree) (a : Arguments)
    (hLinks : t.LinkFree) (hWords : CommandLine.request? words = some (.run a))
    (hDone : (run around words t).exitCode = 0) :
    ∃ s r events, reading around a t = (.ok (s, r), events) ∧
      ∀ path ∈ inputPaths t a s, ∃ p bytes, t.locate path = .ok p ∧ t.read path = .ok bytes ∧
        ((run around words t).tree.fileAt? p = some bytes ↔ Spares around a s r t p bytes) ∧
        ((∀ q, t.SameFile p q → ¬ IsOutput s t.here q) → (run around words t).tree.fileAt? p = some bytes) ∧
        ((run around words t).tree.fileAt? p = some bytes → ¬ Emptied s t.here p →
          (".." ∈ Path.parts path → ∀ q ∈ Path.way t.here path, ¬ Emptied s t.here q) →
          (run around words t).tree.read path = .ok bytes) := by
  rw [run_of_words hWords] at hDone ⊢
  obtain ⟨s, r, events, hReading⟩ := exists_reading_of_exitCode hDone
  refine ⟨s, r, events, hReading, fun path hPath => ?_⟩
  obtain ⟨bytes, hRead⟩ := exists_read_of_mem_inputPaths hReading hPath
  obtain ⟨p, hPlace, hFile⟩ := Tree.of_read hRead
  have hLeft := fileAt?_runWith_iff hLinks hReading hDone hFile
  refine ⟨p, bytes, hPlace, hRead, hLeft, fun hElsewhere => ?_, fun hThere hStays hClimbs => ?_⟩
  · exact hLeft.mpr (spares_of_not_isOutput hReading hDigest hElsewhere bytes)
  · refine read_runWith hLinks hReading hDone hPlace hThere ?_
    rw [hLinks.eq_place_of_locate hPlace] at hStays
    by_cases hDots : ".." ∈ Path.parts path
    · exact hClimbs hDots
    · exact fun q hq => not_emptied_of_mem_way hDots hStays hq

/-! ### Inputs in directories for documents -/

theorem exists_reading_plainText (hConfig : a.config? = none) (hNone : t.find? settingsFile = none)
    (hSettings : a.applyTo .default = s)
    (hRows : t.find? s.mappingFile = some (.file (Text.toBytes "obfuscated\tclear\n")))
    (hText : t.find? s.inputFile = some (.file (Text.toBytes plainText))) :
    ∃ events, reading noon a t = (.ok (s, ((headingSplitter noon.clock).layOut
      ((headingSplitter noon.clock).clearedLines .empty plainText) ⟨[], [plainBlock]⟩).value), events) :=
  exists_reading_of_heading noon t a hConfig hNone hSettings hRows hText rfl

/-- A glossary in a directory that is emptied. -/
def shelved : Tree := .of
  [(["s.proto"], .file (Text.toBytes plainText)), (["out"], .directory),
    (["out", "m.tsv"], .file (Text.toBytes "obfuscated\tclear\n"))]

def shelvedWords : List String := ["-i", "s.proto", "-m", "out/m.tsv", "-o", "out", "--replace-output", "all"]

def shelvedArguments : Arguments :=
  { Arguments.empty with
    input? := some "s.proto"
    mapping? := some "out/m.tsv"
    output? := some "out"
    replaceOutput? := some "all" }

def shelvedSettings : Settings := shelvedArguments.applyTo .default

theorem ofWords?_shelvedWords : Request.ofWords? shelvedWords = some (.run shelvedArguments) := by decide

/-- The run takes all steps of its plan. It writes to other places, but takes the glossary away. -/
theorem exists_reading_shelved : ∃ r events,
    reading noon shelvedArguments shelved = (.ok (shelvedSettings, r), events) ∧
    (Plan.takeAll shelved (plan noon shelvedArguments shelvedSettings r)).value.2 = none ∧
    lastText? noon shelvedArguments shelvedSettings r shelved ["out", "m.tsv"] = none ∧
    (Plan.takeAll shelved (plan noon shelvedArguments shelvedSettings r)).value.1.find? "out/m.tsv" = none := by
  obtain ⟨events, hReading⟩ := exists_reading_plainText (t := shelved) (a := shelvedArguments) rfl
    ((Tree.find?_of_locate rfl).trans rfl) rfl ((Tree.find?_of_locate rfl).trans rfl)
    ((Tree.find?_of_locate rfl).trans rfl)
  rw [Splitter.value_layOut] at hReading
  exact ⟨_, events, hReading, by decide +kernel, by decide +kernel, by decide +kernel⟩

/-- The schema is still there, and the glossary is not. -/
theorem shelved_inputs : shelved.LinkFree ∧ Request.ofWords? shelvedWords = some (.run shelvedArguments) ∧
    (run noon shelvedWords shelved).exitCode = 0 ∧
    (run noon shelvedWords shelved).tree.read "s.proto" = .ok (Text.toBytes plainText) ∧
    (run noon shelvedWords shelved).tree.fileAt? ["out", "m.tsv"] ≠ shelved.fileAt? ["out", "m.tsv"] := by
  have hSingle : shelved.Unlinked := Tree.unlinked_of _ _
  obtain ⟨r, events, hReading, hTaken, hLast, _⟩ := exists_reading_shelved
  have hDone := (runWith_plan rfl rfl hReading).2.mpr hTaken
  rw [← run_of_words ofWords?_shelvedWords] at hDone
  obtain ⟨s, r', events', hSame, hInputs⟩ := inputs_after_run noon slash_not_mem_short shelvedWords shelved
    shelvedArguments hSingle.linkFree ofWords?_shelvedWords hDone
  obtain ⟨rfl, rfl⟩ := Prod.mk.inj (Except.ok.inj (Prod.mk.inj (hReading.symm.trans hSame)).1)
  refine ⟨hSingle.linkFree, ofWords?_shelvedWords, hDone, ?_, ?_⟩
  · obtain ⟨p, bytes, hPlace, hRead, _, hElsewhere, hStill⟩ := hInputs "s.proto" (by decide +kernel)
    obtain rfl := Except.ok.inj (hPlace.symm.trans (show shelved.locate "s.proto" = .ok ["s.proto"] from rfl))
    have hBytes : shelved.read "s.proto" = .ok (Text.toBytes plainText) :=
      Tree.read_of_find? ((Tree.find?_of_locate rfl).trans rfl)
    obtain rfl := Except.ok.inj (hRead.symm.trans hBytes)
    refine hStill (hElsewhere fun q hq => ?_) (by decide +kernel) (by decide)
    obtain rfl := hSingle.eq_of_sameFile _ _ hq
    decide +kernel
  · obtain ⟨p, bytes, hPlace, hRead, hLeft, _⟩ := hInputs "out/m.tsv" (by decide +kernel)
    obtain rfl := Except.ok.inj (hPlace.symm.trans (show shelved.locate "out/m.tsv" = .ok ["out", "m.tsv"] from rfl))
    obtain ⟨p, hSamePlace, hFile⟩ := Tree.of_read hRead
    obtain rfl := Except.ok.inj (hPlace.symm.trans hSamePlace)
    rw [hFile]
    exact fun hKept => not_spares_of_emptied (by decide) hLast (by decide +kernel) (hLeft.mp hKept)

/-- The schema that an earlier run made, where this run makes its own. -/
def again : Tree := .of
  [(["all"], .directory), (["all", "replace_output.proto"], .file (Text.toBytes plainText)),
    (["m.tsv"], .file (Text.toBytes "obfuscated\tclear\n"))]

def againWords : List String :=
  ["--keep-existing", "-i", "all/replace_output.proto", "-m", "m.tsv", "-o", "out", "--replace-output", "all"]

def againArguments : Arguments :=
  { Arguments.empty with
    input? := some "all/replace_output.proto"
    mapping? := some "m.tsv"
    output? := some "out"
    replaceOutput? := some "all"
    keepExisting := true }

def againSettings : Settings := againArguments.applyTo .default

theorem ofWords?_againWords : Request.ofWords? againWords = some (.run againArguments) := by decide

/-- The run takes all steps of its plan, and writes another schema to the place of its input. -/
theorem exists_reading_again : ∃ r events,
    reading noon againArguments again = (.ok (againSettings, r), events) ∧
    (Plan.takeAll again (plan noon againArguments againSettings r)).value.2 = none ∧
    (Plan.takeAll again (plan noon againArguments againSettings r)).value.1.find? "all/replace_output.proto" ≠
      some (.file (Text.toBytes plainText)) := by
  obtain ⟨events, hReading⟩ := exists_reading_plainText (t := again) (a := againArguments) rfl
    ((Tree.find?_of_locate rfl).trans rfl) rfl ((Tree.find?_of_locate rfl).trans rfl)
    ((Tree.find?_of_locate rfl).trans rfl)
  rw [Splitter.value_layOut] at hReading
  exact ⟨_, events, hReading, by decide +kernel, by decide +kernel⟩

/-- The schema, with a link to it in the directory for blocks. -/
def linked : Tree where
  names := [(["s.proto"], .file 0), (["m.tsv"], .file 1), (["out"], .directory),
    (["out", "Ping.proto"], .link "../s.proto")]
  files := [(0, Text.toBytes plainText), (1, Text.toBytes "obfuscated\tclear\n")]
  here := []
  kept := 0

def linkedWords : List String :=
  ["--keep-existing", "-i", "s.proto", "-m", "m.tsv", "-o", "out", "--replace-output", "all"]

def linkedArguments : Arguments :=
  { Arguments.empty with
    input? := some "s.proto"
    mapping? := some "m.tsv"
    output? := some "out"
    replaceOutput? := some "all"
    keepExisting := true }

def linkedSettings : Settings := linkedArguments.applyTo .default

theorem ofWords?_linkedWords : Request.ofWords? linkedWords = some (.run linkedArguments) := by decide

/-- The run takes all steps of its plan, and one of them leads to the schema. -/
theorem exists_reading_linked : ∃ r events,
    reading noon linkedArguments linked = (.ok (linkedSettings, r), events) ∧
    (Plan.takeAll linked (plan noon linkedArguments linkedSettings r)).value.2 = none ∧
    (Plan.takeAll linked (plan noon linkedArguments linkedSettings r)).value.1.find? "s.proto" ≠
      some (.file (Text.toBytes plainText)) := by
  obtain ⟨events, hReading⟩ := exists_reading_plainText (t := linked) (a := linkedArguments) rfl
    ((Tree.find?_of_locate rfl).trans rfl) rfl ((Tree.find?_of_locate rfl).trans rfl)
    ((Tree.find?_of_locate rfl).trans rfl)
  rw [Splitter.value_layOut] at hReading
  exact ⟨_, events, hReading, by decide +kernel, by decide +kernel⟩

/-- A run leaves all that it read as it was. -/
def KeepsInputs [Formats] [CommandLine] (around : Surroundings) (words : List String) (t : Tree) : Prop :=
  ∀ a s r events, CommandLine.request? words = some (.run a) → (run around words t).exitCode = 0 →
    reading around a t = (.ok (s, r), events) → ∀ path ∈ inputPaths t a s,
      (run around words t).tree.read path = t.read path

theorem KeepsInputs.find?_eq [Formats] [CommandLine] (h : KeepsInputs around words t)
    (hWords : CommandLine.request? words = some (.run a)) (hList : a.listOnly = false) (hDry : a.dryRun = false)
    (hReading : reading around a t = (.ok (s, r), events))
    (hTaken : (Plan.takeAll t (plan around a s r)).value.2 = none) (hPath : path ∈ inputPaths t a s)
    (hThere : t.find? path = some (.file bytes)) :
    (Plan.takeAll t (plan around a s r)).value.1.find? path = some (.file bytes) := by
  obtain ⟨hTree, hCode⟩ := runWith_plan hList hDry hReading
  have hDone := hCode.mpr hTaken
  rw [← run_of_words hWords] at hDone hTree
  have hKept := h a s r events hWords hDone hReading path hPath
  rw [hTree, Tree.read_of_find? hThere] at hKept
  exact Tree.find?_of_read hKept

/-- A glossary that lies in an output directory is taken away with what lies there. Where such directories are to be
    kept as they are, a schema that lies there is written over if it has the name of the one that is made, and one that
    lies elsewhere if a link leads from there to it. -/
theorem not_keepsInputs : ¬ KeepsInputs noon shelvedWords shelved ∧ ¬ KeepsInputs noon againWords again ∧
    ¬ KeepsInputs noon linkedWords linked := by
  refine ⟨fun h => ?_, fun h => ?_, fun h => ?_⟩
  · obtain ⟨r, events, hReading, hTaken, _, hGone⟩ := exists_reading_shelved
    have hPath : "out/m.tsv" ∈ inputPaths shelved shelvedArguments shelvedSettings := by decide +kernel
    have hThere := h.find?_eq ofWords?_shelvedWords rfl rfl hReading hTaken hPath ((Tree.find?_of_locate rfl).trans rfl)
    rw [hGone] at hThere
    cases hThere
  · obtain ⟨r, events, hReading, hTaken, hOther⟩ := exists_reading_again
    have hPath : "all/replace_output.proto" ∈ inputPaths again againArguments againSettings := by decide +kernel
    exact hOther (h.find?_eq ofWords?_againWords rfl rfl hReading hTaken hPath ((Tree.find?_of_locate rfl).trans rfl))
  · obtain ⟨r, events, hReading, hTaken, hOther⟩ := exists_reading_linked
    have hPath : "s.proto" ∈ inputPaths linked linkedArguments linkedSettings := by decide +kernel
    exact hOther (h.find?_eq ofWords?_linkedWords rfl rfl hReading hTaken hPath ((Tree.find?_of_locate rfl).trans rfl))

end Unbundle.Command
