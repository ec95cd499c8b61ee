/-
  Unbundle.Proofs.Command.Session — what whole runs leave of the files in a tree.

  (1) `runWith_of_reading`, `runWith_plan`. A run whose first half succeeds carries out an errand; one that writes takes
  the steps of its plan, and succeeds if and only if it took all of them (`takeAll_of_exitCode`).

  (2) `tree_untouched`. Nothing changes while anything stands in the way of a split, nor if no files are asked for.

  (3) `files_after_run`. Behind a run that succeeds in a tree without symbolic links, files stand where it wrote and hold
  what it wrote last to them; of the other files those below the directories it prepared are gone, if it was to empty
  them.

  What the libraries make of words, settings and patterns is left open; the runs on fixed trees go by the readers of
  this project.
-/

import Unbundle.Digest
import Unbundle.Proofs.Command.Reading
import Unbundle.Proofs.Effect

namespace Unbundle.Command

variable {around : Surroundings} {words : List String} {a : Arguments} {t : Tree} {s : Settings} {r : SplitResult}
  {events : List Event}

/-! ## (1) Halves of a run -/

/-- The steps of a run that writes. -/
def plan (around : Surroundings) (a : Arguments) (s : Settings) (r : SplitResult) : List Step :=
  Plan.preparation (.ofSettings s) s.clearOutputDirs r.opcodes?.isSome ++
    (Plan.deliverAll (.ofSettings s) ⟨a.strategy, around.digest⟩ .empty r.documents).2

/-- What a run writes, in order, each text under its path. -/
def written (around : Surroundings) (a : Arguments) (s : Settings) (r : SplitResult) : List (String × String) :=
  Plan.writes (Plan.deliverAll (.ofSettings s) ⟨a.strategy, around.digest⟩ .empty r.documents).2

/-- What is left of a tree is told by its steps, and success too. -/
theorem Errand.run_carryOut (steps : List Step) (closing before : List Shown) :
    ((carryOut steps closing).run a before t).tree = (Plan.takeAll t steps).value.1 ∧
      (((carryOut steps closing).run a before t).exitCode = 0 ↔ (Plan.takeAll t steps).value.2 = none) := by
  dsimp only [Errand.run]
  rcases Plan.takeAll t steps with ⟨⟨t', _ | failure⟩, shown⟩
  · exact ⟨rfl, fun _ => rfl, fun _ => rfl⟩
  · refine ⟨rfl, fun h => ?_, fun h => ?_⟩
    · cases h
    · cases h

section

variable [Formats]

theorem run_of_words [CommandLine] (h : CommandLine.request? words = some (.run a)) :
    run around words t = runWith around a t := by
  unfold run
  rw [h]

theorem runWith_eq : runWith around a t =
    match reading around a t with
    | (.error report, events) => .ofRun a (events.map .event) (some report) t
    | (.ok (s, r), events) => (Errand.of around.digest a s r).run a (events.map .event) t := by
  -- a run takes its reading apart in two steps, pair and value
  have hReading : ((readAll (Files.ofTree t) around.clock a).run.run []).run = reading around a t := rfl
  unfold runWith
  rw [hReading]
  rcases reading around a t with ⟨_ | ⟨s, r⟩, events⟩ <;> rfl

theorem runWith_of_reading (h : reading around a t = (.ok (s, r), events)) :
    runWith around a t = (Errand.of around.digest a s r).run a (events.map .event) t := by
  rw [runWith_eq, h]

/-- A run that meets an obstacle fails with the tree as it was. -/
theorem runWith_of_obstacle (around : Surroundings) (h : Obstacle t a) :
    (runWith around a t).exitCode = 1 ∧ (runWith around a t).tree = t := by
  rw [runWith_eq]
  rcases hReading : reading around a t with ⟨report | ⟨s, r⟩, events⟩
  · exact ⟨rfl, rfl⟩
  · obtain ⟨g, schema, splitter, hInputs, hRun⟩ := exists_reading_iff.mp ⟨events, hReading⟩
    exact absurd h (hInputs.not_obstacle hRun)

theorem exists_reading (around : Surroundings) (h : ¬ Obstacle t a) :
    ∃ s r events, reading around a t = (.ok (s, r), events) := by
  obtain ⟨s, g, schema, splitter, r, hInputs, hRun⟩ := exists_inputs around.clock h
  obtain ⟨events, hReading⟩ := exists_reading_iff.mpr ⟨g, schema, splitter, hInputs, hRun⟩
  exact ⟨s, r, events, hReading⟩

/-- A run that succeeds met no obstacle. -/
theorem exists_reading_of_exitCode (h : (runWith around a t).exitCode = 0) :
    ∃ s r events, reading around a t = (.ok (s, r), events) := by
  refine exists_reading around fun hObstacle => ?_
  rw [(runWith_of_obstacle around hObstacle).1] at h
  cases h

theorem runWith_plan (hList : a.listOnly = false) (hDry : a.dryRun = false)
    (hReading : reading around a t = (.ok (s, r), events)) :
    (runWith around a t).tree = (Plan.takeAll t (plan around a s r)).value.1 ∧
      ((runWith around a t).exitCode = 0 ↔ (Plan.takeAll t (plan around a s r)).value.2 = none) := by
  have hErrand : Errand.of around.digest a s r = .writing around.digest a s r := by
    rw [Errand.of, if_neg (by simp [hList]), if_neg (by simp [hDry])]
  rw [runWith_of_reading hReading, hErrand]
  exact Errand.run_carryOut _ _ _

/-- A run that writes and succeeds took all steps of its plan. -/
theorem takeAll_of_exitCode (hList : a.listOnly = false) (hDry : a.dryRun = false)
    (hReading : reading around a t = (.ok (s, r), events)) (hDone : (runWith around a t).exitCode = 0) :
    (Plan.takeAll t (plan around a s r)).value = ((runWith around a t).tree, none) := by
  obtain ⟨hTree, hCode⟩ := runWith_plan hList hDry hReading
  exact Prod.ext hTree.symm (hCode.mp hDone)

/-- The plan has an opcode class if the settings ask for one. -/
theorem isSome_opcodes (hReading : reading around a t = (.ok (s, r), events)) :
    r.opcodes?.isSome = s.opcodes.enabled := by
  obtain ⟨g, schema, splitter, hInputs, hRun⟩ := exists_reading_iff.mp ⟨events, hReading⟩
  obtain ⟨_, _, _, hOpcodes⟩ := hInputs.splitter.fields
  rw [Splitter.opcodes_eq hRun, Option.isSome_map, hOpcodes]

/-! ## (2) Trees left alone -/

/-- A run that only lists or previews and meets no obstacle succeeds with the tree as it was. -/
theorem runWith_of_mode (around : Surroundings) (hMode : a.listOnly = true ∨ a.dryRun = true) (hFree : ¬ Obstacle t a) :
    (runWith around a t).exitCode = 0 ∧ (runWith around a t).tree = t := by
  obtain ⟨s, r, events, hReading⟩ := exists_reading around hFree
  have hErrand : ∃ lines, Errand.of around.digest a s r = .print lines := by
    unfold Errand.of
    split
    · exact ⟨_, rfl⟩
    · rename_i hList
      rw [if_pos (hMode.resolve_left hList)]
      exact ⟨_, rfl⟩
  obtain ⟨lines, hLines⟩ := hErrand
  rw [runWith_of_reading hReading, hLines]
  exact ⟨rfl, rfl⟩

/-- Where something stands in the way of a split, or a list or a preview is asked for, the tree stays as it was; the run
    fails in the first case and in no other. -/
theorem tree_untouched [CommandLine] (around : Surroundings) (words : List String) (t : Tree)
    (h : ∀ a, CommandLine.request? words = some (.run a) → Obstacle t a ∨ a.listOnly = true ∨ a.dryRun = true) :
    (run around words t).tree = t ∧
      ∀ a, CommandLine.request? words = some (.run a) → ((run around words t).exitCode = 1 ↔ Obstacle t a) := by
  have hRun : ∀ a, CommandLine.request? words = some (.run a) → (run around words t).tree = t ∧
      ((run around words t).exitCode = 1 ↔ Obstacle t a) := by
    intro a hWords
    rw [run_of_words hWords]
    by_cases hObstacle : Obstacle t a
    · obtain ⟨hCode, hTree⟩ := runWith_of_obstacle around hObstacle
      exact ⟨hTree, fun _ => hObstacle, fun _ => hCode⟩
    · obtain ⟨hCode, hTree⟩ := runWith_of_mode around ((h a hWords).resolve_left hObstacle) hObstacle
      refine ⟨hTree, fun hFailed => ?_, fun hThere => absurd hThere hObstacle⟩
      rw [hCode] at hFailed
      cases hFailed
  refine ⟨?_, fun a hWords => (hRun a hWords).2⟩
  rcases hWords : CommandLine.request? words with _ | _ | full | a
  · unfold run
    rw [hWords]
  · unfold run
    rw [hWords]
  · unfold run
    rw [hWords]
  · exact (hRun a hWords).1

end

/-- The surroundings of runs on fixed trees. -/
def noon : Surroundings := ⟨"2024-05-06 12:00:00", Digest.short⟩

/-- A glossary whose last row is no text, and a file from an earlier run. -/
def brokenRows : Tree := .of
  [(["s.proto"], .file (Text.toBytes Splitter.pingText)),
    (["m.tsv"], .file (Text.toBytes "obfuscated\tclear\nABC\tPing\n" ++ [0xFF, 10])),
    (["out"], .directory), (["out", "Old.proto"], .file [])]

def brokenWords : List String := ["-i", "s.proto", "-m", "m.tsv", "-o", "out"]

def brokenArguments : Arguments :=
  { Arguments.empty with input? := some "s.proto", mapping? := some "m.tsv", output? := some "out" }

theorem obstacle_brokenRows : Obstacle brokenRows brokenArguments := by
  have hPath : settingsPath? brokenRows brokenArguments = none := by decide +kernel
  have hBytes : brokenRows.read "m.tsv" = .ok (Text.toBytes "obfuscated\tclear\nABC\tPing\n" ++ [0xFF, 10]) := rfl
  have hNone : Text.ofBytes? (Text.toBytes "obfuscated\tclear\nABC\tPing\n" ++ [0xFF, 10]) = none := by decide +kernel
  refine .mapping (brokenArguments.applyTo .default) ⟨.default, rfl, ?_⟩ fun text hText => ?_
  · rw [hPath]
  · obtain ⟨bytes, hRead, hOk⟩ := textAt_eq_ok_iff.mp hText
    obtain rfl := Except.ok.inj (hBytes.symm.trans hRead)
    rw [hNone] at hOk
    cases hOk

/-- The run fails, and the file stays. -/
theorem brokenRows_untouched : Request.ofWords? brokenWords = some (.run brokenArguments) ∧
    Obstacle brokenRows brokenArguments ∧ (run noon brokenWords brokenRows).tree = brokenRows ∧
    (run noon brokenWords brokenRows).exitCode = 1 := by
  have hWords : Request.ofWords? brokenWords = some (.run brokenArguments) := by decide
  obtain ⟨hTree, hCode⟩ := tree_untouched noon brokenWords brokenRows fun a ha => by
    obtain rfl := Request.run.inj (Option.some.inj (hWords.symm.trans ha))
    exact .inl obstacle_brokenRows
  exact ⟨hWords, obstacle_brokenRows, hTree, (hCode _ hWords).mpr obstacle_brokenRows⟩

/-! ## (3) Files behind a run -/

/-- The place lies in one of the directories for documents; the one for opcodes counts if opcodes are asked for. -/
def IsOutput (s : Settings) (here p : Place) : Prop :=
  Plan.IsBelowAny here (Plan.directories (.ofSettings s) s.opcodes.enabled) p

instance (s : Settings) (here p : Place) : Decidable (IsOutput s here p) :=
  inferInstanceAs (Decidable (Plan.IsBelowAny ..))

/-- Whatever stands at the place is taken away before anything is written. -/
def Emptied (s : Settings) (here p : Place) : Prop := s.clearOutputDirs = true ∧ IsOutput s here p

instance (s : Settings) (here p : Place) : Decidable (Emptied s here p) := inferInstanceAs (Decidable (_ ∧ _))

/-- Behind a run two places are one, or names of one file: they were before, and neither was taken away. -/
def OneFile (s : Settings) (t : Tree) (p q : Place) : Prop := Plan.StaySame t (Emptied s t.here) p q

instance (s : Settings) (t : Tree) (p q : Place) : Decidable (OneFile s t p q) :=
  inferInstanceAs (Decidable (Plan.StaySame ..))

/-- The text that a run writes last to the file at a place, be it under this name or another one. -/
def lastText? (around : Surroundings) (a : Arguments) (s : Settings) (r : SplitResult) (t : Tree) (p : Place) :
    Option String :=
  Plan.lastWritten? (OneFile s t p) t.here (written around a s r)

theorem delivers_of_mem_documents (s : Settings) (n : Plan.Naming) (r : SplitResult) :
    ∀ step ∈ (Plan.deliverAll (.ofSettings s) n .empty r.documents).2, step.delivers = true :=
  fun _ => Plan.delivers_of_mem_deliverAll

section

variable [Formats] (hLinks : t.LinkFree) (hReading : reading around a t = (.ok (s, r), events)) {t' : Tree}
  (hTaken : (Plan.takeAll t (plan around a s r)).value = (t', none))
include hLinks hReading hTaken

/-- What was written last to a file decides; under that, what the emptied directories leave. -/
theorem fileAt?_of_taken (p : Place) : t'.fileAt? p =
    ((lastText? around a s r t p).map Text.toBytes).or (if Emptied s t.here p then none else t.fileAt? p) := by
  have hFile := Plan.fileAt?_of_plan hLinks (delivers_of_mem_documents s _ r) hTaken p
  rw [isSome_opcodes hReading] at hFile
  exact hFile

theorem sameFile_of_taken (p q : Place) : t'.SameFile p q ↔ OneFile s t p q := by
  have hSame := Plan.sameFile_of_plan (p := p) (q := q) hLinks (delivers_of_mem_documents s _ r) hTaken
  rw [isSome_opcodes hReading] at hSame
  exact hSame

/-- There are files where one was written, and where one stood that was not taken away. -/
theorem isSome_fileAt?_of_taken (p : Place) : (t'.fileAt? p).isSome = true ↔
    (∃ w ∈ written around a s r, Path.place t.here w.1 = p) ∨ (t.fileAt? p).isSome = true ∧ ¬ Emptied s t.here p := by
  have hLast : (lastText? around a s r t p).isSome = true ↔
      ∃ w ∈ written around a s r, OneFile s t p (Path.place t.here w.1) := Plan.isSome_lastWritten?_iff
  have hFile : (t'.fileAt? p).isSome = true ↔
      (lastText? around a s r t p).isSome = true ∨ (t.fileAt? p).isSome = true ∧ ¬ Emptied s t.here p := by
    rw [fileAt?_of_taken hLinks hReading hTaken]
    by_cases hGone : Emptied s t.here p <;> simp [hGone]
  rw [hFile, hLast]
  constructor
  · rintro (⟨w, hw, hSame | ⟨hSame, hStays, _⟩⟩ | hBefore)
    · exact .inl ⟨w, hw, hSame.symm⟩
    · -- another name of a file that stood there
      rcases hSame with hSame | ⟨hThere, _⟩
      · exact .inl ⟨w, hw, hSame.symm⟩
      · exact .inr ⟨by simpa [Tree.fileAt?, Option.isSome_iff_ne_none] using hThere, hStays⟩
    · exact .inr hBefore
  · rintro (⟨w, hw, hPlace⟩ | hBefore)
    · exact .inl ⟨w, hw, .inl hPlace.symm⟩
    · exact .inr hBefore

end

/-- Behind a run that succeeds, in a tree without symbolic links, every path it wrote leads to its place, and there are
    files at these places and where there were files before, but for those that were taken away: they lie below one of
    the directories prepared, and these were to be emptied. A file that was written holds what was written last to it,
    which is what was written last to its place unless it has other names; every other file holds what it held. Two
    names are names of one file if they were before and neither was taken away. -/
theorem files_after_run [Formats] [CommandLine] (around : Surroundings) (words : List String) (t : Tree)
    (a : Arguments) (hLinks : t.LinkFree) (hWords : CommandLine.request? words = some (.run a))
    (hList : a.listOnly = false) (hDry : a.dryRun = false) (hDone : (run around words t).exitCode = 0) :
    ∃ s r events, reading around a t = (.ok (s, r), events) ∧
      (∀ w ∈ written around a s r, (run around words t).tree.locate w.1 = .ok (Path.place t.here w.1)) ∧
      (∀ p, ((run around words t).tree.fileAt? p).isSome = true ↔
        (∃ w ∈ written around a s r, Path.place t.here w.1 = p) ∨
          (t.fileAt? p).isSome = true ∧ ¬ Emptied s t.here p) ∧
      (∀ p contents, lastText? around a s r t p = some contents →
        (run around words t).tree.fileAt? p = some (Text.toBytes contents)) ∧
      (∀ p, lastText? around a s r t p = none → ¬ Emptied s t.here p →
        (run around words t).tree.fileAt? p = t.fileAt? p) ∧
      ∀ p q, (run around words t).tree.SameFile p q ↔ OneFile s t p q := by
  rw [run_of_words hWords] at hDone ⊢
  obtain ⟨s, r, events, hReading⟩ := exists_reading_of_exitCode hDone
  have hTaken := takeAll_of_exitCode hList hDry hReading hDone
  have hFiles := fileAt?_of_taken hLinks hReading hTaken
  refine ⟨s, r, events, hReading, ?_, isSome_fileAt?_of_taken hLinks hReading hTaken, ?_, ?_,
    sameFile_of_taken hLinks hReading hTaken⟩
  · exact fun w hw => Plan.locate_of_mem_writes hLinks (delivers_of_mem_documents s _ r) hTaken hw
  · intro p contents hLast
    rw [hFiles, hLast]
    rfl
  · intro p hNone hStays
    rw [hFiles, hNone, if_neg hStays]
    rfl

/-! ### Runs without clear names -/

/-- The splitter of default settings, but for the names of files and directories. -/
def headingSplitter (clock : String) : Splitter where
  vocabulary := .protobuf Vocabulary.defaultSuppressed
  selection := { Selection.default with blacklist := [] }
  annotate := true
  leadingHeader := [Settings.default.gameVersionLine, ""]
  trailingHeader := Settings.default.headerContent
  layout := ⟨"\t", provenance clock⟩
  opcodePackage? := some OpcodeSettings.default.packageHeader

/-- Without a settings file, and with a glossary of a heading alone, a run splits the schema as it is. -/
theorem exists_reading_of_heading (around : Surroundings) (t : Tree) (a : Arguments) {schema : String}
    {parsed : Schema} (hConfig : a.config? = none) (hNone : t.find? settingsFile = none)
    (hSettings : a.applyTo .default = s)
    (hRows : t.find? s.mappingFile = some (.file (Text.toBytes "obfuscated\tclear\n")))
    (hText : t.find? s.inputFile = some (.file (Text.toBytes schema)))
    (hParsed : (Schema.ofLines (.protobuf Vocabulary.defaultSuppressed) (Text.lines schema)).value = .ok parsed) :
    ∃ events, reading around a t = (.ok (s, ((headingSplitter around.clock).layOut
      ((headingSplitter around.clock).clearedLines .empty schema) parsed).value), events) := by
  subst hSettings
  have hPath : settingsPath? t a = none := by
    simp [settingsPath?, hConfig, Tree.isFile, hNone]
  have hSchema : textAt t (a.applyTo .default).inputFile = .ok schema :=
    textAt_eq_ok_iff.mpr ⟨_, Tree.read_of_find? hText, Text.ofBytes?_toBytes schema⟩
  refine exists_reading_iff.mpr ⟨.empty, schema, headingSplitter around.clock, ⟨⟨.default, rfl, ?_⟩,
    Tree.isFile_of_find? hText, ⟨_, .empty, Tree.read_of_find? hRows, rfl, rfl⟩, hSchema, ?_⟩, ?_⟩
  · rw [hPath]
  · have hPattern : Selection.make Selection.defaultPattern [] = .ok Selection.default := by
      have hRead : Formats.pattern Selection.defaultPattern = (Pattern.read? Selection.defaultPattern).elim
          (.error "not a regular expression") fun e => .ok e.isFoundIn := rfl
      rw [Selection.make, if_neg (by decide), hRead, Selection.default, Selection.read?_defaultPattern]
      rfl
    have hPlain : Splitter.ofSettings (textAt t) (a.applyTo .default) =
        .ok { headingSplitter around.clock with layout := .default } :=
      Splitter.ofSettings_eq_ok_iff.mpr ⟨.default, [], hPattern, rfl, rfl⟩
    exact ⟨_, hPlain, rfl⟩
  · refine Splitter.run_eq_ok_iff.mpr ⟨parsed, ?_, rfl⟩
    rw [(Splitter.clearedLines_empty _ schema).1]
    exact hParsed

/-- A block with a command id and a clear name. -/
def plainText : String := "// CmdId: 7\nmessage Ping \x7b\n\x7d\n"

/-- Files below directories that lie in one another, and beside them. -/
def nested : Tree := .of
  [(["keep.txt"], .file [1]), (["work"], .directory), (["work", "s.proto"], .file (Text.toBytes plainText)),
    (["work", "m.tsv"], .file (Text.toBytes "obfuscated\tclear\n")), (["work", "proto"], .directory),
    (["work", "proto", "old.txt"], .file [2]), (["work", "proto", "packet_opcodes_output"], .directory),
    (["work", "proto", "packet_opcodes_output", "Old.proto"], .file [3])] ["work"]

/-- All directories prepared are one of these two. -/
def nestedWords : List String :=
  ["-i", "s.proto", "-m", "m.tsv", "-o", "/work/proto/packet_opcodes_output", "--replace-output", "../work/proto"]

def nestedArguments : Arguments :=
  { Arguments.empty with
    input? := some "s.proto"
    mapping? := some "m.tsv"
    output? := some "/work/proto/packet_opcodes_output"
    replaceOutput? := some "../work/proto" }

def nestedSettings : Settings := nestedArguments.applyTo .default

/-- All steps of the run can be taken, and they write one of three files. -/
theorem exists_reading_nested : ∃ r events,
    reading noon nestedArguments nested = (.ok (nestedSettings, r), events) ∧
    (Plan.takeAll nested (plan noon nestedArguments nestedSettings r)).value.2 = none ∧
    lastText? noon nestedArguments nestedSettings r nested ["keep.txt"] = none ∧
    (written noon nestedArguments nestedSettings r).map (Path.place nested.here ·.1) =
      [["work", "proto", "replace_output.proto"], ["work", "proto", "packet_opcodes_output", "Ping.proto"],
        ["work", "proto", "packet_opcodes_output", "PacketOpcodes.java"]] := by
  have hParsed : (Schema.ofLines (.protobuf Vocabulary.defaultSuppressed) (Text.lines plainText)).value =
      .ok ⟨[], [⟨"Ping", 7, ["message Ping \x7b", "\x7d"], [], []⟩]⟩ := rfl
  obtain ⟨events, hReading⟩ := exists_reading_of_heading noon nested nestedArguments rfl
    ((Tree.find?_of_locate rfl).trans rfl) rfl ((Tree.find?_of_locate rfl).trans rfl)
    ((Tree.find?_of_locate rfl).trans rfl) hParsed
  rw [Splitter.value_layOut] at hReading
  exact ⟨_, events, hReading, by decide +kernel, by decide +kernel, by decide +kernel⟩

/-- The old file in them is gone, the file beside them stays, and there is a new one. -/
theorem nested_files : nested.LinkFree ∧ (run noon nestedWords nested).exitCode = 0 ∧
    (run noon nestedWords nested).tree.fileAt? ["keep.txt"] = some [1] ∧
    (run noon nestedWords nested).tree.fileAt? ["work", "proto", "old.txt"] = none ∧
    ((run noon nestedWords nested).tree.fileAt?
      ["work", "proto", "packet_opcodes_output", "Ping.proto"]).isSome = true := by
  have hWords : Request.ofWords? nestedWords = some (.run nestedArguments) := by decide
  have hLinks : nested.LinkFree := (Tree.unlinked_of _ _).linkFree
  obtain ⟨r, events, hReading, hTaken, hKeep, hPlaces⟩ := exists_reading_nested
  have hDone := (runWith_plan rfl rfl hReading).2.mpr hTaken
  rw [← run_of_words hWords] at hDone
  obtain ⟨s, r', events', hSame, _, hThere, _, hStays, _⟩ := files_after_run _ _ nested _ hLinks hWords rfl rfl hDone
  obtain ⟨rfl, rfl⟩ := Prod.mk.inj (Except.ok.inj (Prod.mk.inj (hReading.symm.trans hSame)).1)
  have hWritten : ∀ p, (∃ w ∈ written noon nestedArguments nestedSettings r, Path.place nested.here w.1 = p) ↔
      p ∈ (written noon nestedArguments nestedSettings r).map (Path.place nested.here ·.1) := by simp
  simp only [hWritten, hPlaces] at hThere
  refine ⟨hLinks, hDone, ?_, ?_, (hThere _).mpr (.inl (by decide))⟩
  · exact (hStays _ hKeep (by decide +kernel)).trans rfl
  · refine Option.not_isSome_iff_eq_none.mp fun hOld => ?_
    rcases (hThere _).mp hOld with hNew | ⟨_, hKept⟩
    · exact absurd hNew (by decide)
    · exact hKept (by decide +kernel)

end Unbundle.Command
