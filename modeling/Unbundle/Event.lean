/-
  Unbundle.Event — what a run reports while it works.

  Every report is an event with a level; the text is a function of the event. Computations that report
  return their events beside their value (`Logged`), in the order in which they happened.
-/

import Unbundle.Failure

namespace Unbundle

/-- How urgent an event is, the most urgent level first. -/
inductive Level where
  | warn
  | info
  | debug
  | trace
  deriving DecidableEq, Repr

namespace Level

def rank : Level → Nat
  | warn => 0
  | info => 1
  | debug => 2
  | trace => 3

def name : Level → String
  | warn => "WARN"
  | info => "INFO"
  | debug => "DEBUG"
  | trace => "TRACE"

/-- Whether events of level `l` are shown where `limit` is the least urgent level wanted. -/
def shownAt (l limit : Level) : Bool := l.rank ≤ limit.rank

end Level

/-- Something that happened during a run. -/
inductive Event where
  -- the glossary
  | headerRow (line : String)
  | rowIgnored (failure : Failure)
  | nameDropped (key : String) (occurrences : Nat)
  | nameRepeated (key : String) (occurrences : Nat)
  | spacesRemoved (key collapsed : String)
  | collapsedClash (collapsed : String)
  | glossaryReady (names inconsistent malformed : Nat)
  -- clear names put into the schema
  | linesCleared (lines changed : Nat)
  | glossaryApplied (names changed lines : Nat)
  -- the scan of the schema
  | commandIdSeen (line : Nat) (id : UInt32)
  | blockOpened (line : Nat) (name : String) (id : UInt32)
  | levelsUnclosed (levels : Nat)
  -- selection and output
  | blockJudged (name verdict : String)
  | blocksSelected (blocks selected : Nat)
  | commandIdShared (id : UInt32) (names : List String)
  | filesLaidOut (files : Nat)
  -- the command
  | settingsMissing (path : String)
  | directoryCleared (path : String)
  | combinedWritten (path : String)
  | fileWritten (path : String)
  | opcodesWritten (path : String)
  | duplicateSkipped (file digest : String)
  | conflictSkipped (file digest : String)
  | conflictRenamed (file renamed : String)
  | summary (found duplicates renamed written : Nat)
  deriving DecidableEq, Repr

namespace Event

def level : Event → Level
  | rowIgnored .. | nameDropped .. | collapsedClash .. | levelsUnclosed .. | commandIdShared .. => .warn
  | glossaryReady .. | glossaryApplied .. | blocksSelected .. | filesLaidOut .. | settingsMissing ..
  | combinedWritten .. | opcodesWritten .. | conflictRenamed .. | summary .. => .info
  | nameRepeated .. | spacesRemoved .. | linesCleared .. | blockJudged .. | directoryCleared ..
  | fileWritten .. | duplicateSkipped .. | conflictSkipped .. => .debug
  | headerRow .. | commandIdSeen .. | blockOpened .. => .trace

/-- The text of an event. -/
def message : Event → String
  | headerRow line => "Skipping mapping header: " ++ line
  | rowIgnored failure => failure.message
  | nameDropped key occurrences => (Failure.conflictingName key occurrences).message
  | nameRepeated key occurrences =>
    "Key '" ++ key ++ "' repeated " ++ toString occurrences ++ " times with the same value"
  | spacesRemoved key collapsed => "Collapsed spaces in key '" ++ key ++ "' -> '" ++ collapsed ++ "'"
  | collapsedClash collapsed =>
    "Key '" ++ collapsed ++ "' collapses onto an existing key with a different value, dropping it"
  | glossaryReady names inconsistent malformed =>
    "Mapping ready: " ++ toString names ++ " keys admitted, " ++ toString inconsistent ++ " inconsistent, " ++
      toString malformed ++ " malformed rows"
  | linesCleared lines changed => "Rewrote " ++ toString lines ++ " lines, " ++ toString changed ++ " changed"
  | glossaryApplied names changed lines =>
    "Applied " ++ toString names ++ " mapping keys: " ++ toString changed ++ " of " ++ toString lines ++
      " lines changed"
  | commandIdSeen line id => "Line " ++ toString line ++ ": pending command id " ++ toString id
  | blockOpened line name id =>
    "Line " ++ toString line ++ ": block '" ++ name ++ "' (command id " ++ toString id ++ ")"
  | levelsUnclosed levels => "Schema ended with " ++ toString levels ++ " unclosed nesting level(s)"
  | blockJudged name verdict => "Block '" ++ name ++ "': " ++ verdict
  | blocksSelected blocks selected =>
    "Resolved " ++ toString blocks ++ " blocks, " ++ toString selected ++ " eligible for emission"
  | commandIdShared id names =>
    "Command id " ++ toString id ++ " is shared by " ++ ", ".intercalate names
  | filesLaidOut files => "Split into " ++ toString files ++ " files"
  | settingsMissing path => "No " ++ path ++ " found, using defaults"
  | directoryCleared path => "Cleared " ++ path
  | combinedWritten path => "Mapping applied, wrote " ++ path
  | fileWritten path => "Wrote " ++ path
  | opcodesWritten path => "Wrote opcode table " ++ path
  | duplicateSkipped file digest => "Skipping duplicate: " ++ file ++ " (hash: " ++ digest ++ ")"
  | conflictSkipped file digest =>
    "Skipping conflict: " ++ file ++ " (different content, hash: " ++ digest ++ ")"
  | conflictRenamed file renamed =>
    "Conflict resolved: " ++ file ++ " -> " ++ renamed ++ " (content differs)"
  | summary found duplicates renamed written =>
    "Summary: " ++ toString found ++ " found, " ++ toString duplicates ++ " duplicates skipped, " ++
      toString renamed ++ " conflicts renamed, " ++ toString written ++ " written"

/-- The line of a log that shows an event. -/
def line (e : Event) : String := e.level.name ++ " " ++ e.message

end Event

/-- A value with the events reported on the way to it. -/
structure Logged (α : Type) where
  value : α
  events : List Event
  deriving DecidableEq, Repr

namespace Logged

variable {α β : Type}

/-- A value without any event. -/
protected def pure (a : α) : Logged α := ⟨a, []⟩

/-- The events of the first computation come before those of the second. -/
protected def bind (x : Logged α) (f : α → Logged β) : Logged β :=
  let y := f x.value
  ⟨y.value, x.events ++ y.events⟩

instance : Monad Logged where
  pure := Logged.pure
  bind := Logged.bind

/-- One event and no value. -/
def report (e : Event) : Logged Unit := ⟨(), [e]⟩

/-- Events and no value. -/
def reportAll (es : List Event) : Logged Unit := ⟨(), es⟩

@[simp] theorem value_pure (a : α) : (pure a : Logged α).value = a := rfl
@[simp] theorem events_pure (a : α) : (pure a : Logged α).events = [] := rfl
@[simp] theorem value_bind (x : Logged α) (f : α → Logged β) : (x >>= f).value = (f x.value).value := rfl
@[simp] theorem events_bind (x : Logged α) (f : α → Logged β) :
    (x >>= f).events = x.events ++ (f x.value).events := rfl
@[simp] theorem events_report (e : Event) : (report e).events = [e] := rfl
@[simp] theorem events_reportAll (es : List Event) : (reportAll es).events = es := rfl

end Logged

end Unbundle
