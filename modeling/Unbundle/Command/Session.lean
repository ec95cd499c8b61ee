/-
  Unbundle.Command.Session — one run of the program.

  A run has two halves. The first reads: settings, glossary, schema and blacklist, in this order, and splits the
  schema. It asks for files but has no way to change one. The second prints what was found, or carries out a plan.
  What is shown on the way are events, down to the level asked for, and lines of text. What the libraries say about
  words and formats, the time, and the digests of texts come from outside.
-/

import Unbundle.Command.Arguments
import Unbundle.Command.Report
import Unbundle.Glossary.Rows
import Unbundle.Plan
import Unbundle.Text.Visible

namespace Unbundle.Command

def programName : String := "protosplit"

def version : String := "0.1.0"

/-- The settings file that is read if no other is named. -/
def settingsFile : String := "protosplit.toml"

/-! ## Reading -/

/-- The questions a run asks about files. -/
structure Files (m : Type → Type) where
  isFile : String → m Bool
  read : String → m (Except Fault (List UInt8))

/-- The files of a tree. -/
def Files.ofTree (t : Tree) : Files Id where
  isFile := t.isFile
  read := t.read

/-- A computation that asks for files, reports, and may end the run. -/
abbrev Reading (m : Type → Type) := ExceptT Report (StateT (List Event) m)

namespace Reading

variable {m : Type → Type} [Monad m] {α : Type}

def report (events : List Event) : Reading m Unit := modify (· ++ events)

def ofLogged (x : Logged α) : Reading m α := do
  report x.events
  return x.value

/-- Ends the run if there was a failure; `text` says what it stood in the way of. -/
def within (text : String) : Except Failure α → Reading m α
  | .ok a => return a
  | .error failure => throw (.within text failure)

end Reading

open Reading

section

variable [Formats] {m : Type → Type} [Monad m]

def Files.readText (files : Files m) (path : String) : m (Except Fault String) := do
  match ← files.read path with
  | .error fault => return .error fault
  | .ok bytes =>
    match Text.ofBytes? bytes with
    | none => return .error .notText
    | some text => return .ok text

/-- The settings in a file. -/
def settingsIn (files : Files m) (path : String) : Reading m Settings := do
  let text ← files.readText path
  within ("Failed to load config: " ++ path) ((text.mapError (.fileRead path)).bind Settings.ofText)

/-- The settings with what was asked for put in their place. -/
def Arguments.applyTo (a : Arguments) (s : Settings) : Settings :=
  { s with
    inputFile := a.input?.getD s.inputFile
    mappingFile := a.mapping?.getD s.mappingFile
    splitOutputDir := a.output?.getD s.splitOutputDir
    replaceOutputDir := a.replaceOutput?.getD s.replaceOutputDir
    clearOutputDirs := if a.keepExisting then false else s.clearOutputDirs }

/-- The settings of a run. -/
def settingsFor (files : Files m) (a : Arguments) : Reading m Settings := do
  match a.config? with
  | some path => a.applyTo <$> settingsIn files path
  | none =>
    if ← files.isFile settingsFile then
      a.applyTo <$> settingsIn files settingsFile
    else
      report [.settingsMissing settingsFile]
      return a.applyTo .default

/-- A failure in the middle of a file is one of reading that file. -/
def inFile (path : String) : Failure → Failure
  | .stream fault => .fileRead path fault
  | failure => failure

/-- The glossary in a file. -/
def glossaryIn (files : Files m) (path : String) : Reading m Glossary := do
  let text := "Failed to load mapping: " ++ path
  let bytes ← within text ((← files.read path).mapError (.fileRead path))
  let (draft, failure?) ← ofLogged (Draft.empty.readBytes bytes)
  within text (failure?.elim (.ok ()) fun failure => .error (inFile path failure))
  ofLogged draft.finish

/-- The schema in a file. -/
def schemaIn (files : Files m) (path : String) : Reading m String := do
  match ← files.readText path with
  | .error fault => throw ⟨"Failed to read input file: " ++ path, [fault.message]⟩
  | .ok text => return text

/-- The comments on top of every file. -/
def provenance (clock : String) : List String :=
  ["Generated by " ++ programName ++ " " ++ version, "usedTime: " ++ clock]

/-- The splitter that settings describe. -/
def splitterFor (files : Files m) (clock : String) (s : Settings) : Reading m Splitter := do
  let listed ← match s.blacklist.file? with
    | none => pure (.error .notFound)
    | some path => files.readText path
  let splitter ← within "Invalid configuration" (Splitter.ofSettings (fun _ => listed) s)
  return { splitter with layout := { splitter.layout with provenance := provenance clock } }

/-- The first half of a run: the settings, and all that the split gives. -/
def readAll (files : Files m) (clock : String) (a : Arguments) : Reading m (Settings × SplitResult) := do
  let s ← settingsFor files a
  if ← files.isFile s.inputFile then
    let glossary ← glossaryIn files s.mappingFile
    let schema ← schemaIn files s.inputFile
    let splitter ← splitterFor files clock s
    let result ← ofLogged (splitter.run glossary schema)
    return (s, ← within ("Failed to split " ++ s.inputFile) result)
  else throw ⟨"Input file does not exist: " ++ s.inputFile, []⟩

end

/-! ## Showing -/

/-- Something shown to the user. -/
inductive Shown where
  | event (e : Event)
  | text (line : String)
  deriving DecidableEq, Repr

/-- The least urgent level that is shown. -/
def levelFor : Nat → Level
  | 0 => .warn
  | 1 => .info
  | 2 => .debug
  | _ => .trace

/-- Whether something is shown where `limit` is the least urgent level wanted. Lines of text always are. -/
def Shown.isWanted (limit : Level) : Shown → Bool
  | event e => e.level.shownAt limit
  | text _ => true

/-- The line that is shown. An event may quote anything that was read, so its line is made visible; a line of text
    is the answer asked for and stays as it is. -/
def Shown.line : Shown → String
  | event e => Text.visible e.line
  | text line => line

/-- What is shown, each thing on a line of its own. -/
def Shown.render (limit : Level) (shown : List Shown) : String :=
  Text.unlines ((shown.filter (isWanted limit)).map line)

/-- The blocks that have files, with their command ids. -/
def listing (r : SplitResult) : List String :=
  r.emitted.map fun b =>
    if b.block.hasCommandId then b.block.name ++ "\t" ++ toString b.block.commandId else b.block.name

/-- The documents a run would write, the contents of the blocks' files included if `full` is set. -/
def preview (d : Destinations) (full : Bool) (documents : List Document) : List String :=
  documents.flatMap fun document =>
    let line := "Would write: " ++ d.pathOf document
    match document with
    | .block file => if full then [line, "---", file.contents, "---"] else [line]
    | _ => [line]

/-! ## The second half -/

/-- What is left to do once the schema is split. -/
inductive Errand where
  | print (lines : List String)
  /-- Takes the steps, and shows `closing` if none of them failed. -/
  | carryOut (steps : List Step) (closing : List Shown)
  deriving DecidableEq, Repr

/-- The plan for all documents, with what is shown at its end. -/
def Errand.writing (digest : String → String) (a : Arguments) (s : Settings) (r : SplitResult) : Errand :=
  let d := Destinations.ofSettings s
  let (registry, steps) := Plan.deliverAll d ⟨a.strategy, digest⟩ .empty r.documents
  let line := "Split " ++ toString r.blocks.length ++ " blocks into " ++ toString registry.written ++
    " files in " ++ d.blocks
  .carryOut (Plan.preparation d s.clearOutputDirs r.opcodes?.isSome ++ steps) [.text line, .event registry.summary]

/-- What the arguments ask for. A list is asked for before a preview. -/
def Errand.of (digest : String → String) (a : Arguments) (s : Settings) (r : SplitResult) : Errand :=
  if a.listOnly then .print (listing r)
  else if a.dryRun then .print (preview (.ofSettings s) (0 < a.verbosity) r.documents)
  else .writing digest a s r

/-! ## Whole runs -/

/-- What a run leaves behind. -/
structure Outcome where
  /-- 0 for success, 1 for failure, 2 for words that break the rules. -/
  exitCode : UInt8
  output : String
  errors : String
  tree : Tree

/-- The end of a run: it failed if there is a report. -/
def Outcome.ofRun (a : Arguments) (shown : List Shown) (report? : Option Report) (t : Tree) : Outcome where
  exitCode := if report?.isSome then 1 else 0
  output := Shown.render (levelFor a.verbosity) shown
  errors := (report?.map Report.render).getD ""
  tree := t

/-- Carries out an errand in a tree, behind what was shown before. -/
def Errand.run (a : Arguments) (before : List Shown) (t : Tree) : Errand → Outcome
  | print lines => .ofRun a (before ++ lines.map .text) none t
  | carryOut steps closing =>
    let taken := Plan.takeAll t steps
    let shown := before ++ taken.events.map .event
    match taken.value with
    | (t, none) => .ofRun a (shown ++ closing) none t
    | (t, some failure) => .ofRun a shown (some (.ofFailure failure)) t

/-- What does not belong to the arguments or the tree. -/
structure Surroundings where
  /-- The time, as it stands in the files. -/
  clock : String
  /-- A short text that tells contents apart. -/
  digest : String → String

/-- A run with arguments that keep the rules. -/
def runWith [Formats] (around : Surroundings) (a : Arguments) (t : Tree) : Outcome :=
  let (read, events) := ((readAll (Files.ofTree t) around.clock a).run.run []).run
  let shown := events.map Shown.event
  match read with
  | .error report => .ofRun a shown (some report) t
  | .ok (s, r) => (Errand.of around.digest a s r).run a shown t

/-- A run of the program. -/
def run [Formats] [CommandLine] (around : Surroundings) (words : List String) (t : Tree) : Outcome :=
  match CommandLine.request? words with
  | none => ⟨2, "", "", t⟩
  | some .version => ⟨0, programName ++ " " ++ version ++ "\n", "", t⟩
  | some (.help full) => ⟨0, CommandLine.help full, "", t⟩
  | some (.run a) => runWith around a t

end Unbundle.Command
