/-
  Unbundle.Plan — what a run does to the file tree, laid down as steps before the first of them is taken.

  First the directories are made and emptied, then the documents are written in order. The steps are taken one by
  one, and the first that fails is the last: what the steps before it did stays.
-/

import Unbundle.Delivery
import Unbundle.Registry
import Unbundle.Tree.Basic

namespace Unbundle

/-- The directories for the documents. -/
structure Destinations where
  combined : String
  blocks : String
  opcodes : String
  deriving DecidableEq, Repr

namespace Destinations

def ofSettings (s : Settings) : Destinations := ⟨s.replaceOutputDir, s.splitOutputDir, s.opcodes.outputDir⟩

/-- The directory for a document. -/
def directoryOf (d : Destinations) : Document → String
  | .combined .. => d.combined
  | .block _ => d.blocks
  | .opcodes .. => d.opcodes

/-- The path of a document under its own name. -/
def pathOf (d : Destinations) (document : Document) : String :=
  Path.join (d.directoryOf document) document.fileName

end Destinations

/-- One step of a plan. -/
inductive Step where
  /-- Makes a directory and those above it; empties it if `empties` is set. -/
  | prepare (dir : String) (empties : Bool)
  /-- Reports something and does nothing. -/
  | report (event : Event)
  /-- Writes a file, and reports `written` then. -/
  | write (path contents : String) (written : Event)
  deriving DecidableEq, Repr

namespace Step

/-- What is reported once a step is done. -/
def events : Step → List Event
  | prepare dir empties => if empties then [.directoryCleared dir] else []
  | report event => [event]
  | write _ _ written => [written]

/-- Makes and empties a directory. -/
def prepareIn (t : Tree) (dir : String) (empties : Bool) : Tree × Option Failure :=
  match t.ensureAll dir with
  | (t, some fault) => (t, some (.directoryCreate dir fault))
  | (t, none) =>
    if empties then
      let (t, fault?) := t.clear dir
      (t, fault?.map (.directoryClear dir))
    else (t, none)

/-- Writes a file, once its directory is there. -/
def writeIn (t : Tree) (path contents : String) : Tree × Option Failure :=
  match t.ensureAll (Path.parent path) with
  | (t, some fault) => (t, some (.directoryCreate (Path.parent path) fault))
  | (t, none) =>
    match t.write path (Text.toBytes contents) with
    | .error fault => (t, some (.fileWrite path fault))
    | .ok t => (t, none)

/-- The tree after a step, and the failure if it failed. -/
def takeIn (t : Tree) : Step → Tree × Option Failure
  | prepare dir empties => prepareIn t dir empties
  | report _ => (t, none)
  | write path contents _ => writeIn t path contents

end Step

namespace Plan

/-- The tree after steps were taken, up to the first that failed. -/
def takeAll (t : Tree) : List Step → Logged (Tree × Option Failure)
  | [] => return (t, none)
  | step :: rest =>
    match step.takeIn t with
    | (t, some failure) => return (t, some failure)
    | (t, none) => do
      Logged.reportAll step.events
      takeAll t rest

/-- The steps that make the directories: that of the opcode class only if there is one. -/
def preparation (d : Destinations) (empties hasOpcodes : Bool) : List Step :=
  ([d.combined, d.blocks] ++ (if hasOpcodes then [d.opcodes] else [])).map (.prepare · empties)

/-- What decides the names of files. -/
structure Naming where
  strategy : ConflictStrategy
  /-- A short text that tells contents apart. -/
  digest : String → String

/-- The steps for one document. -/
def deliver (d : Destinations) (n : Naming) (r : Registry) (document : Document) : Registry × List Step :=
  match document with
  | .combined _ contents =>
    let path := d.pathOf document
    (r, [.write path contents (.combinedWritten path)])
  | .opcodes _ contents =>
    let path := d.pathOf document
    (r, [.write path contents (.opcodesWritten path)])
  | .block file =>
    let answer := r.enter n.strategy file.fileName (n.digest file.contents)
    let writes := answer.value.2.toList.map fun name =>
      let path := Path.join d.blocks name
      Step.write path file.contents (.fileWritten path)
    (answer.value.1, answer.events.map .report ++ writes)

/-- The steps for documents in order. -/
def deliverAll (d : Destinations) (n : Naming) : Registry → List Document → Registry × List Step
  | r, [] => (r, [])
  | r, document :: rest =>
    let (r, steps) := deliver d n r document
    let (r, later) := deliverAll d n r rest
    (r, steps ++ later)

end Plan

end Unbundle
