/-
  Unbundle.Proofs.Command.Preview — what a preview announces, and what the run then writes.

  A preview announces every document under its own name. The run asks the registry for names: files that are alike are
  written once, and files in conflict get other names or none.

  (1) `ofWords?_previewed`. The flag may be added to all arguments that do without it.

  (2) `announced_preview`. The paths that a preview announces are those of the documents.

  (3) `tellsTruth_iff`. They are the paths that the run writes if and only if none of them is announced twice.
-/

import Unbundle.Proofs.Command.Session
import Unbundle.Proofs.Delivery
import Unbundle.Proofs.Imports

namespace Unbundle.Command

variable {around : Surroundings} {words : List String} {a b : Arguments} {t : Tree} {s : Settings} {r : SplitResult}
  {events : List Event}

/-! ## (1) The flag -/

namespace Arguments

/-- The same arguments with the flag. -/
def previewed (a : Arguments) : Arguments := { a with dryRun := true }

/-- Whatever else is asked for, the flag can stand beside it. -/
theorem add?_previewed {item : Item} (h : a.add? item = some b) (hDry : b.dryRun = false) :
    a.dryRun = false ∧ a.previewed.add? item = some b.previewed := by
  have hSame : ∀ {α : Type} {x : Option α} {f g : α → Arguments}, x.map f = some b →
      (∀ c, (f c).dryRun = a.dryRun ∧ g c = (f c).previewed) → a.dryRun = false ∧ x.map g = some b.previewed := by
    intro α x f g hMap hFlag
    obtain ⟨c, rfl, rfl⟩ := Option.map_eq_some_iff.mp hMap
    exact ⟨(hFlag c).1 ▸ hDry, congrArg some (hFlag c).2⟩
  cases item with
  | flag f =>
    cases f with
    | verbose | version | help full =>
      cases h
      exact ⟨hDry, rfl⟩
    | listOnly | keepExisting => exact hSame h fun c => ⟨rfl, rfl⟩
    | dryRun =>
      -- the flag itself is not given
      obtain ⟨c, hOnce, rfl⟩ := Option.map_eq_some_iff.mp h
      unfold flagOnce? at hOnce
      split at hOnce
      · cases hOnce
      · cases hOnce
        cases hDry
  | value k text =>
    cases k with
    | config | input | mapping | output | replaceOutput => exact hSame h fun c => ⟨rfl, rfl⟩
    | conflictStrategy =>
      rw [add?] at h ⊢
      by_cases hGiven : a.strategy?.isSome = true
      · rw [if_pos hGiven] at h
        cases h
      · rw [if_neg hGiven] at h
        rw [if_neg (show ¬ a.previewed.strategy?.isSome = true from hGiven)]
        exact hSame h fun c => ⟨rfl, rfl⟩

theorem foldlM_add?_previewed {items : List Item} (h : items.foldlM add? a = some b) (hDry : b.dryRun = false) :
    a.dryRun = false ∧ items.foldlM add? a.previewed = some b.previewed := by
  induction items generalizing a with
  | nil =>
    cases h
    exact ⟨hDry, rfl⟩
  | cons item rest ih =>
    rw [List.foldlM_cons] at h ⊢
    obtain ⟨next, hNext, hRest⟩ := Option.bind_eq_some_iff.mp h
    obtain ⟨hMid, hLater⟩ := ih hRest
    obtain ⟨hFirst, hBeside⟩ := add?_previewed hNext hMid
    exact ⟨hFirst, Option.bind_eq_some_iff.mpr ⟨_, hBeside, hLater⟩⟩

end Arguments

/-- No item asks for a run. -/
theorem Item.request?_ne_run (item : Item) (a : Arguments) : item.request? ≠ some (.run a) := by
  cases item with
  | flag f =>
    cases f
    all_goals simp [request?]
  | value k text => simp [request?]

/-- Words that ask for a run ask for a preview of it with the flag in front. -/
theorem ofWords?_previewed (hWords : Request.ofWords? words = some (.run a)) (hDry : a.dryRun = false) :
    Request.ofWords? ("--dry-run" :: words) = some (.run a.previewed) := by
  have hWord : wordOf? "--dry-run" = some ([.flag .dryRun], none) := by decide
  have hItems : itemsOf? none ("--dry-run" :: words) = (itemsOf? none words).map (.flag .dryRun :: ·) := by
    rw [itemsOf?, if_neg (by decide), hWord]
    exact if_neg (by decide)
  unfold Request.ofWords? at hWords ⊢
  obtain ⟨items, hAsked, hRest⟩ := Option.bind_eq_some_iff.mp hWords
  obtain ⟨c, hFold, hRequest⟩ := Option.bind_eq_some_iff.mp hRest
  have hRequest : (items.findSome? Item.request?).getD (.run c) = .run a := Option.some.inj hRequest
  rcases hOther : items.findSome? Item.request? with _ | other
  · rw [hOther] at hRequest
    obtain rfl := Request.run.inj hRequest
    have hBoth := (Arguments.foldlM_add?_previewed hFold hDry).2
    rw [hItems, hAsked]
    refine Option.bind_eq_some_iff.mpr ⟨_, rfl, Option.bind_eq_some_iff.mpr ⟨_, hBoth, ?_⟩⟩
    have hFlag : (Item.flag .dryRun :: items).findSome? Item.request? = items.findSome? Item.request? := rfl
    rw [hFlag, hOther]
    rfl
  · rw [hOther] at hRequest
    obtain rfl : other = .run a := hRequest
    obtain ⟨item, _, hItem⟩ := List.exists_of_findSome?_eq_some hOther
    exact absurd hItem (Item.request?_ne_run item a)

/-! ## (2) Announcements -/

/-- What stands in front of a path that is announced. -/
def announcement : String := "Would write: "

/-- The path that a line announces. -/
def announced? (line : String) : Option String :=
  if announcement.toList.isPrefixOf line.toList then
    some (String.ofList (line.toList.drop announcement.toList.length))
  else none

/-- The paths that lines announce. -/
def announced (lines : List String) : List String := lines.filterMap announced?

theorem announced?_append (path : String) : announced? ("Would write: " ++ path) = some path := by
  have hFront : announcement.toList.isPrefixOf ("Would write: " ++ path).toList = true := by
    rw [String.toList_append]
    exact List.isPrefixOf_iff_prefix.mpr (List.prefix_append _ _)
  rw [announced?, if_pos hFront, String.toList_append]
  exact congrArg some (by rw [announcement, List.drop_left, String.ofList_toList])

theorem announced?_eq_none {line : String} (h : line.toList.head? ≠ some 'W') : announced? line = none := by
  refine if_neg fun hFront => h ?_
  obtain ⟨rest, hLine⟩ := List.isPrefixOf_iff_prefix.mp hFront
  rw [← hLine]
  rfl

/-- A preview announces the documents under their own names, and nothing in the contents it shows. -/
theorem announced_preview {d : Destinations} {full : Bool} {documents : List Document}
    (h : ∀ file, .block file ∈ documents → file.contents.toList.head? ≠ some 'W') :
    announced (preview d full documents) = documents.map d.pathOf := by
  have hRule : announced? "---" = none := announced?_eq_none (by decide)
  induction documents with
  | nil => rfl
  | cons document rest ih =>
    have hRest := ih fun file hFile => h file (List.mem_cons_of_mem document hFile)
    have hLine := announced?_append (d.pathOf document)
    unfold announced preview at hRest ⊢
    rw [List.flatMap_cons, List.filterMap_append, hRest, List.map_cons]
    cases document with
    | combined name contents | opcodes name contents => simp [hLine]
    | block file =>
      have hContents := announced?_eq_none (h file List.mem_cons_self)
      cases full with
      | false => simp [hLine]
      | true => simp [hLine, hRule, hContents]

/-- The file of a block begins with a comment. -/
theorem head?_contents [Formats] (hReading : reading around a t = (.ok (s, r), events)) {file : BlockFile}
    (h : file ∈ r.files) :
    file.contents.toList.head? = some '/' := by
  obtain ⟨g, schema, splitter, hInputs, hRun⟩ := exists_reading_iff.mp ⟨events, hReading⟩
  obtain ⟨judged, _, _, rfl⟩ := (Splitter.mem_files_iff hRun).mp h
  obtain ⟨line, rest, hLines⟩ : ∃ line rest,
      splitter.layout.blockLines r.header judged.block = ("// " ++ line) :: rest := by
    obtain ⟨_, _, hProvenance, _⟩ := hInputs.splitter.fields
    unfold Layout.blockLines Layout.provenanceLines
    rw [hProvenance]
    exact ⟨_, _, rfl⟩
  rw [Layout.render, hLines, Text.toList_unlines_cons, String.toList_append]
  rfl

/-! ## (3) Announced and written -/

/-- The lines of a preview. -/
def previewLines (a : Arguments) (s : Settings) (r : SplitResult) : List String :=
  preview (.ofSettings s) (0 < a.verbosity) r.documents

/-- The paths that a run writes. -/
def writtenPaths (around : Surroundings) (a : Arguments) (s : Settings) (r : SplitResult) : List String :=
  (written around a s r).map Prod.fst

/-- What a preview announces are the paths that the run writes, each of them once. -/
def TellsTruth (around : Surroundings) (a : Arguments) (s : Settings) (r : SplitResult) : Prop :=
  (announced (previewLines a s r)).Perm (writtenPaths around a s r).eraseDups

theorem announced_previewLines [Formats] (hReading : reading around a t = (.ok (s, r), events)) :
    announced (previewLines a s r) = r.documents.map (Destinations.ofSettings s).pathOf := by
  refine announced_preview fun file hFile => ?_
  have hMem : file ∈ r.files := by simpa [SplitResult.documents] using hFile
  rw [head?_contents hReading hMem]
  decide

theorem map_pathOf_documents (d : Destinations) (r : SplitResult) : r.documents.map d.pathOf =
    Path.join d.combined Document.combinedFileName ::
      (r.files.map (fun file => Path.join d.blocks file.fileName) ++
        r.opcodes?.toList.map fun _ => Path.join d.opcodes Document.opcodesFileName) := by
  rw [SplitResult.documents, List.map_cons, List.map_append, List.map_map, List.map_map]
  rfl

theorem writtenPaths_eq (around : Surroundings) (a : Arguments) (s : Settings) (r : SplitResult) :
    writtenPaths around a s r = Path.join s.replaceOutputDir Document.combinedFileName ::
      ((Plan.writes (Plan.deliverAll (.ofSettings s) ⟨a.strategy, around.digest⟩ .empty (r.files.map .block)).2).map
          Prod.fst ++
        r.opcodes?.toList.map fun _ => Path.join s.opcodes.outputDir Document.opcodesFileName) := by
  rw [writtenPaths, written, Plan.writes_deliverAll_documents, List.map_cons, List.map_append, List.map_map]
  rfl

/-- The path of every document is written, be it for this document or for one like it. -/
theorem mem_writtenPaths_of_mem {path : String} (h : path ∈ r.documents.map (Destinations.ofSettings s).pathOf) :
    path ∈ writtenPaths around a s r := by
  rw [map_pathOf_documents, List.mem_cons, List.mem_append] at h
  rw [writtenPaths_eq, List.mem_cons, List.mem_append]
  rcases h with rfl | h | h
  · exact .inl rfl
  · obtain ⟨file, hFile, rfl⟩ := List.mem_map.mp h
    obtain ⟨contents, hWritten⟩ := Plan.mem_writes_of_mem hFile
    exact .inr (.inl (List.mem_map_of_mem (f := Prod.fst) hWritten))
  · exact .inr (.inr h)

/-- Where no two documents have one path, no other path is written. -/
theorem mem_of_mem_writtenPaths (hNodup : (r.documents.map (Destinations.ofSettings s).pathOf).Nodup) {path : String}
    (h : path ∈ writtenPaths around a s r) : path ∈ r.documents.map (Destinations.ofSettings s).pathOf := by
  rw [map_pathOf_documents] at hNodup ⊢
  -- files of different paths have different names, so that none is in conflict
  have hFiles := (List.nodup_append.mp (List.nodup_cons.mp hNodup).2).1
  have hNames : (r.files.map BlockFile.fileName).Nodup := by
    refine List.Nodup.of_map (Path.join s.splitOutputDir) ?_
    rw [List.map_map]
    exact hFiles
  rw [writtenPaths_eq, List.mem_cons, List.mem_append] at h
  rw [List.mem_cons, List.mem_append]
  rcases h with rfl | h | h
  · exact .inl rfl
  · obtain ⟨⟨path, contents⟩, hWritten, rfl⟩ := List.mem_map.mp h
    obtain ⟨file, hFile, rfl⟩ := Plan.exists_mem_of_mem_writes hNames hWritten
    exact .inr (.inl (List.mem_map_of_mem hFile))
  · exact .inr (.inr h)

/-- A path that is written and that no document has is the path of a file with its digest. -/
theorem renamed_of_mem_writtenPaths {path : String} (h : path ∈ writtenPaths around a s r)
    (hNew : path ∉ r.documents.map (Destinations.ofSettings s).pathOf) : ∃ file ∈ r.files,
      path = Path.join s.splitOutputDir (Registry.withDigest file.fileName (around.digest file.contents)) := by
  rw [writtenPaths_eq, List.mem_cons, List.mem_append] at h
  rw [map_pathOf_documents, List.mem_cons, List.mem_append, not_or, not_or] at hNew
  obtain ⟨hCombined, hFiles, hOpcodes⟩ := hNew
  rcases h with rfl | h | h
  · exact absurd rfl hCombined
  · obtain ⟨⟨path, contents⟩, hWritten, rfl⟩ := List.mem_map.mp h
    obtain ⟨file, hFile, _, name, rfl, rfl | rfl⟩ := Plan.exists_mayLieAt_of_mem_writes hWritten
    · exact absurd (List.mem_map_of_mem hFile) hFiles
    · exact ⟨file, hFile, rfl⟩
  · exact absurd h hOpcodes

/-- A preview tells the truth if and only if it announces no path twice. -/
theorem tellsTruth_iff [Formats] (hReading : reading around a t = (.ok (s, r), events)) :
    TellsTruth around a s r ↔ (announced (previewLines a s r)).Nodup := by
  unfold TellsTruth
  have hOnce := nodup_eraseDups (writtenPaths around a s r)
  constructor
  · intro hPerm
    exact hPerm.nodup_iff.mpr hOnce
  · intro hNodup
    -- neither repeats a path: it is enough that both have the same ones
    refine (List.perm_ext_iff_of_nodup hNodup hOnce).mpr fun path => ?_
    rw [announced_previewLines hReading] at hNodup ⊢
    rw [List.mem_eraseDups]
    exact ⟨mem_writtenPaths_of_mem, mem_of_mem_writtenPaths hNodup⟩

/-- A preview shows what the run would, in front of its own lines, and leaves the tree as it was. -/
theorem runWith_previewed [Formats] (hList : a.listOnly = false)
    (hReading : reading around a t = (.ok (s, r), events)) :
    runWith around a.previewed t =
      ⟨0, Shown.render (levelFor a.verbosity) (events.map .event ++ (previewLines a s r).map .text), "", t⟩ := by
  have hErrand : Errand.of around.digest a.previewed s r = .print (previewLines a s r) := by
    rw [Errand.of, if_neg (show ¬ a.previewed.listOnly = true by simp [Arguments.previewed, hList])]
    rfl
  rw [runWith_of_reading (show reading around a.previewed t = _ from hReading), hErrand]
  rfl

/-- Words that ask for a run that succeeds ask for a preview with the flag in front, if they are read by the rules of
    `Request.ofWords?`. However the flag is given, the
    preview succeeds, changes nothing, and announces the documents under their own names. All these paths are written,
    and the others written are those of files in conflict. Announced and written paths are the same, each once, if and
    only if no path is announced twice. -/
theorem preview_announces [Formats] [CommandLine] (around : Surroundings) (words : List String) (t : Tree)
    (a : Arguments) (hWords : CommandLine.request? words = some (.run a)) (hList : a.listOnly = false)
    (hDry : a.dryRun = false) (hDone : (run around words t).exitCode = 0) :
    (CommandLine.request? = Request.ofWords? → CommandLine.request? ("--dry-run" :: words) = some (.run a.previewed)) ∧
    ∃ s r events, reading around a t = (.ok (s, r), events) ∧
      (Plan.takeAll t (plan around a s r)).value = ((run around words t).tree, none) ∧
      (∀ dry, CommandLine.request? dry = some (.run a.previewed) → run around dry t =
        ⟨0, Shown.render (levelFor a.verbosity) (events.map .event ++ (previewLines a s r).map .text), "", t⟩) ∧
      announced (previewLines a s r) = r.documents.map (Destinations.ofSettings s).pathOf ∧
      (∀ path ∈ announced (previewLines a s r), path ∈ writtenPaths around a s r) ∧
      (∀ path ∈ writtenPaths around a s r, path ∉ announced (previewLines a s r) → ∃ file ∈ r.files,
        path = Path.join s.splitOutputDir (Registry.withDigest file.fileName (around.digest file.contents))) ∧
      (TellsTruth around a s r ↔ (announced (previewLines a s r)).Nodup) := by
  rw [run_of_words hWords] at hDone ⊢
  obtain ⟨s, r, events, hReading⟩ := exists_reading_of_exitCode hDone
  have hPaths := announced_previewLines hReading
  refine ⟨?_, s, r, events, hReading, takeAll_of_exitCode hList hDry hReading hDone, ?_, hPaths, ?_, ?_,
    tellsTruth_iff hReading⟩
  · intro hRules
    rw [hRules] at hWords ⊢
    exact ofWords?_previewed hWords hDry
  · intro dry hWordsDry
    rw [run_of_words hWordsDry, runWith_previewed hList hReading]
  · intro path hPath
    rw [hPaths] at hPath
    exact mem_writtenPaths_of_mem hPath
  · intro path hPath hNew
    rw [hPaths] at hNew
    exact renamed_of_mem_writtenPaths hPath hNew

/-! ### Runs in a tree with a schema -/

/-- A schema, and a glossary without names. -/
def plainTree (schema : String) : Tree :=
  .of [(["s.proto"], .file (Text.toBytes schema)), (["m.tsv"], .file (Text.toBytes "obfuscated\tclear\n"))]

def plainWords : List String := ["-i", "s.proto", "-m", "m.tsv", "-o", "out", "--replace-output", "all"]

def plainArguments : Arguments :=
  { Arguments.empty with
    input? := some "s.proto"
    mapping? := some "m.tsv"
    output? := some "out"
    replaceOutput? := some "all" }

def plainSettings : Settings := plainArguments.applyTo .default

theorem ofWords?_plainWords : Request.ofWords? plainWords = some (.run plainArguments) := by decide

/-- The run splits the schema into documents with these paths, and all steps of its plan can be taken. -/
structure Plans (schema : String) (r : SplitResult) (events : List Event) (paths : List String) : Prop where
  reading : reading noon plainArguments (plainTree schema) = (.ok (plainSettings, r), events)
  paths : r.documents.map (Destinations.ofSettings plainSettings).pathOf = paths
  taken : (Plan.takeAll (plainTree schema) (plan noon plainArguments plainSettings r)).value.2 = none

theorem Plans.exitCode {schema : String} {paths : List String} (h : Plans schema r events paths) :
    (run noon plainWords (plainTree schema)).exitCode = 0 := by
  rw [run_of_words ofWords?_plainWords]
  exact (runWith_plan rfl rfl h.reading).2.mpr h.taken

/-- The block of the schema, with its command id. -/
def plainBlock : Block := ⟨"Ping", 7, ["message Ping \x7b", "\x7d"], [], []⟩

theorem exists_reading_plain (schema : String) {parsed : Schema}
    (hParsed : (Schema.ofLines (.protobuf Vocabulary.defaultSuppressed) (Text.lines schema)).value = .ok parsed) :
    ∃ events, reading noon plainArguments (plainTree schema) = (.ok (plainSettings, ((headingSplitter noon.clock).layOut
      ((headingSplitter noon.clock).clearedLines .empty schema) parsed).value), events) :=
  exists_reading_of_heading noon (plainTree schema) plainArguments rfl ((Tree.find?_of_locate rfl).trans rfl) rfl
    ((Tree.find?_of_locate rfl).trans rfl) ((Tree.find?_of_locate rfl).trans rfl) hParsed

theorem exists_plans_once : ∃ r events, Plans plainText r events
    ["all/replace_output.proto", "out/Ping.proto", "proto/packet_opcodes_output/PacketOpcodes.java"] := by
  have hParsed : (Schema.ofLines (.protobuf Vocabulary.defaultSuppressed) (Text.lines plainText)).value =
      .ok ⟨[], [plainBlock]⟩ := rfl
  obtain ⟨events, hReading⟩ := exists_reading_plain plainText hParsed
  rw [Splitter.value_layOut] at hReading
  exact ⟨_, events, hReading, by decide +kernel, by decide +kernel⟩

/-- A schema with one block is previewed as it is split. -/
theorem plain_previewed : Request.ofWords? plainWords = some (.run plainArguments) ∧
    (run noon plainWords (plainTree plainText)).exitCode = 0 ∧
    (run noon ("--dry-run" :: plainWords) (plainTree plainText)).tree = plainTree plainText ∧
    ∃ r events, reading noon plainArguments (plainTree plainText) = (.ok (plainSettings, r), events) ∧
      announced (previewLines plainArguments plainSettings r) =
        ["all/replace_output.proto", "out/Ping.proto", "proto/packet_opcodes_output/PacketOpcodes.java"] ∧
      TellsTruth noon plainArguments plainSettings r := by
  obtain ⟨r, events, hPlans⟩ := exists_plans_once
  obtain ⟨hWords, s, r', events', hReading, _, hPreview, hPaths, _, _, hTruth⟩ := preview_announces noon plainWords
    (plainTree plainText) plainArguments ofWords?_plainWords rfl rfl hPlans.exitCode
  obtain ⟨rfl, rfl⟩ := Prod.mk.inj (Except.ok.inj (Prod.mk.inj (hPlans.reading.symm.trans hReading)).1)
  rw [hPlans.paths] at hPaths
  refine ⟨ofWords?_plainWords, hPlans.exitCode, ?_, r, events, hPlans.reading, hPaths, hTruth.mpr ?_⟩
  · rw [hPreview _ (hWords rfl)]
  · rw [hPaths]
    decide

theorem exists_plans_twice : ∃ r events, Plans (plainText ++ plainText) r events
    ["all/replace_output.proto", "out/Ping.proto", "out/Ping.proto",
      "proto/packet_opcodes_output/PacketOpcodes.java"] := by
  have hParsed : (Schema.ofLines (.protobuf Vocabulary.defaultSuppressed) (Text.lines (plainText ++ plainText))).value =
      .ok ⟨[], [plainBlock, plainBlock]⟩ := rfl
  obtain ⟨events, hReading⟩ := exists_reading_plain (plainText ++ plainText) hParsed
  rw [Splitter.value_layOut] at hReading
  exact ⟨_, events, hReading, by decide +kernel, by decide +kernel⟩

/-- Two blocks that are alike are written once and announced twice. -/
theorem not_tellsTruth : ¬ ∀ (around : Surroundings) (words : List String) (t : Tree) (a : Arguments) (s : Settings)
    (r : SplitResult) (events : List Event), Request.ofWords? words = some (.run a) → a.listOnly = false →
      a.dryRun = false → (run around words t).exitCode = 0 → reading around a t = (.ok (s, r), events) →
      TellsTruth around a s r := by
  intro h
  obtain ⟨r, events, hPlans⟩ := exists_plans_twice
  have hTruth := h noon plainWords (plainTree (plainText ++ plainText)) plainArguments plainSettings r events
    ofWords?_plainWords rfl rfl hPlans.exitCode hPlans.reading
  have hNodup := (tellsTruth_iff hPlans.reading).mp hTruth
  rw [announced_previewLines hPlans.reading, hPlans.paths] at hNodup
  exact absurd hNodup (by decide)

end Unbundle.Command
