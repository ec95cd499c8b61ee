/-
  Unbundle.Main — the program, with real files and a real clock.

  All decisions are made elsewhere. Here files are read and written, steps are taken one by one, and what they
  report is printed as soon as they are done.
-/

import Std.Time.Format
import Unbundle.Command.Session
import Unbundle.Digest

namespace Unbundle.Main

open Command

/-- The fault behind an error of the system. -/
def faultOf : IO.Error → Fault
  | .alreadyExists _ code _ | .otherError code _ | .resourceBusy code _ | .resourceVanished code _
  | .unsupportedOperation code _ | .hardwareFault code _ | .unsatisfiedConstraints code _
  | .illegalOperation code _ | .protocolError code _ | .timeExpired code _ | .interrupted _ code _
  | .noFileOrDirectory _ code _ | .invalidArgument _ code _ | .permissionDenied _ code _
  | .resourceExhausted _ code _ | .inappropriateType _ code _ | .noSuchThing _ code _ => .system code.toNat
  | e => .other (toString e)

/-- The result of an action, or the fault it failed with. -/
def attempt {α : Type} (action : IO α) : IO (Except Fault α) := do
  try return .ok (← action)
  catch e => return .error (faultOf e)

/-- The files of the system. -/
def files : Files IO where
  isFile path := return (← attempt (IO.FS.readBinFile path)).toBool
  read path := do
    return (← attempt (IO.FS.readBinFile path)).map (·.data.toList)

/-- Removes all that lies below a directory. -/
partial def clear (dir : String) : IO Unit := do
  for entry in ← (← IO.FS.realPath dir).readDir do
    let path := entry.path.toString
    match ← attempt (IO.FS.removeFile path) with
    | .ok _ => pure ()
    | .error _ =>
      clear path
      IO.FS.removeDir path

/-- Makes a directory and those above it; the empty path names none. -/
def ensureAll (dir : String) : IO (Except Failure Unit) := do
  if dir = "" then return .ok ()
  return (← attempt (IO.FS.createDirAll dir)).mapError (.directoryCreate dir)

/-- Takes one step. -/
def take : Step → IO (Except Failure Unit)
  | .report _ => return .ok ()
  | .prepare dir empties => do
    match ← ensureAll dir with
    | .ok () =>
      if empties then return (← attempt (clear dir)).mapError (.directoryClear dir)
      else return .ok ()
    | failed => return failed
  | .write path contents _ => do
    match ← ensureAll (Path.parent path) with
    | .ok () => return (← attempt (IO.FS.writeFile path contents)).mapError (.fileWrite path)
    | failed => return failed

/-- Prints what is wanted. -/
def put (a : Arguments) (shown : List Shown) : IO Unit := do
  IO.print (Shown.render (levelFor a.verbosity) shown)
  (← IO.getStdout).flush

/-- Takes steps up to the first that fails. -/
def takeAll (a : Arguments) : List Step → IO (Except Failure Unit)
  | [] => return .ok ()
  | step :: rest => do
    match ← take step with
    | .ok () =>
      put a (step.events.map .event)
      takeAll a rest
    | failed => return failed

/-- Tells what went wrong. -/
def fail (report : Report) : IO UInt32 := do
  IO.eprint report.render
  return 1

/-- Does what is left to do. -/
def carryOut (a : Arguments) : Errand → IO UInt32
  | .print lines => do
    put a (lines.map .text)
    return 0
  | .carryOut steps closing => do
    match ← takeAll a steps with
    | .ok () =>
      put a closing
      return 0
    | .error failure => fail (.ofFailure failure)

/-- The time in UTC, as it stands in the files. -/
def clock : IO String := do
  return (Std.Time.DateTime.ofTimestampWithZone (← Std.Time.Timestamp.now) .UTC).format "uuuu-MM-dd HH:mm:ss"

/-- A run with arguments that keep the rules. -/
def runWith (a : Arguments) : IO UInt32 := do
  let (read, events) ← ((readAll files (← clock) a).run.run [])
  put a (events.map .event)
  match read with
  | .error report => fail report
  | .ok (s, r) => carryOut a (Errand.of Digest.short a s r)

end Unbundle.Main

def main (words : List String) : IO UInt32 :=
  match Unbundle.Command.CommandLine.request? words with
  | none => do
    IO.eprintln (Unbundle.Command.programName ++ ": unusable arguments")
    return 2
  | some .version => do
    IO.println (Unbundle.Command.programName ++ " " ++ Unbundle.Command.version)
    return 0
  | some (.help full) => do
    IO.print (Unbundle.Command.CommandLine.help full)
    return 0
  | some (.run a) => Unbundle.Main.runWith a
