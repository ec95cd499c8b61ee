/-
  Unbundle.Failure — what can go wrong, with the text a user reads.

  A `Fault` is what the operating system, or the reading of bytes as text, has to say about one operation.
  A `Failure` says which part of the job it stopped. Two failures are recoverable: a row of the glossary that
  cannot be used, and a name with conflicting clear names. Both are reported and passed over; every other
  failure ends the run before anything is written.
-/

namespace Unbundle

/-- Why one operation on a file or stream was refused. -/
inductive Fault where
  /-- The operating system's numbered answer. -/
  | system (code : Nat)
  /-- A walk over a directory that fails at its start. -/
  | walk (path : String) (code : Nat)
  /-- Bytes that are not UTF-8. -/
  | notText
  /-- Any other answer, in its own words. -/
  | other (text : String)
  deriving DecidableEq, Repr

namespace Fault

/-- What the operating system calls its numbered answers. -/
def nameOf : Nat → String
  | 1 => "Operation not permitted"
  | 2 => "No such file or directory"
  | 5 => "Input/output error"
  | 13 => "Permission denied"
  | 17 => "File exists"
  | 20 => "Not a directory"
  | 21 => "Is a directory"
  | 22 => "Invalid argument"
  | 28 => "No space left on device"
  | 30 => "Read-only file system"
  | 36 => "File name too long"
  | 39 => "Directory not empty"
  | 40 => "Too many levels of symbolic links"
  | n => "Unknown error " ++ toString n

def notFound : Fault := .system 2
def alreadyExists : Fault := .system 17
def notDirectory : Fault := .system 20
def isDirectory : Fault := .system 21
def nameTooLong : Fault := .system 36
def tooManyLinks : Fault := .system 40

/-- A path with a NUL character in it, which no operation takes. -/
def nulInPath : Fault := .other "file name contained an unexpected NUL byte"

/-- A numbered answer with its number. -/
def systemText (code : Nat) : String := nameOf code ++ " (os error " ++ toString code ++ ")"

/-- The text of a fault. -/
def message : Fault → String
  | .system code => systemText code
  | .walk path code => "IO error for operation on " ++ path ++ ": " ++ systemText code
  | .notText => "stream did not contain valid UTF-8"
  | .other text => text

/-- The fault a fault was built around. -/
def inner? : Fault → Option Fault
  | .walk _ code => some (.system code)
  | _ => none

end Fault

/-- What stopped a run, or one row of it. -/
inductive Failure where
  | fileRead (path : String) (fault : Fault)
  | fileWrite (path : String) (fault : Fault)
  | directoryCreate (path : String) (fault : Fault)
  | directoryClear (path : String) (fault : Fault)
  /-- A row with fewer than two usable columns. -/
  | malformedRow (line : Nat) (columns : Nat)
  /-- An obfuscated name whose rows give it different clear names. -/
  | conflictingName (key : String) (occurrences : Nat)
  /-- A closing line with nothing open. -/
  | unbalanced (line : Nat)
  /-- A stream that failed in the middle. -/
  | stream (fault : Fault)
  /-- A name pattern that does not follow the rules of patterns. -/
  | badPattern (reason : String)
  /-- A settings file that is not TOML, or does not fit the settings. -/
  | badSettings (reason : String)
  /-- A blacklist that is not a JSON object. -/
  | badBlacklist (reason : String)
  | internal (text : String)
  deriving DecidableEq, Repr

namespace Failure

/-- The text of a failure. -/
def message : Failure → String
  | fileRead path fault => "failed to read file '" ++ path ++ "': " ++ fault.message
  | fileWrite path fault => "failed to write file '" ++ path ++ "': " ++ fault.message
  | directoryCreate path fault => "failed to create directory '" ++ path ++ "': " ++ fault.message
  | directoryClear path fault => "failed to clear directory '" ++ path ++ "': " ++ fault.message
  | malformedRow line columns =>
    "malformed mapping record on line " ++ toString line ++ ": expected 2 non-empty columns, found " ++
      toString columns
  | conflictingName key occurrences =>
    "obfuscated key '" ++ key ++ "' occurs " ++ toString occurrences ++ " times with inconsistent values"
  | unbalanced line =>
    "unbalanced closing brace on schema line " ++ toString line ++ ": no open block to close"
  | stream fault => "failed to read input: " ++ fault.message
  | badPattern reason => "invalid pattern: " ++ reason
  | badSettings reason => "failed to parse configuration: " ++ reason
  | badBlacklist reason => "failed to parse blacklist: " ++ reason
  | internal text => "internal error: " ++ text

/-- The fault behind a failure, if an operation on a file or stream was refused. -/
def fault? : Failure → Option Fault
  | fileRead _ fault | fileWrite _ fault | directoryCreate _ fault | directoryClear _ fault | stream fault =>
    some fault
  | _ => none

/-- Failures that concern one row only: the run goes on without it. -/
def isRecoverable : Failure → Bool
  | malformedRow .. | conflictingName .. => true
  | _ => false

/-- The texts behind a failure, outermost first, its own text left out. -/
def causes : Failure → List String
  | badPattern reason | badSettings reason | badBlacklist reason => [reason]
  | f => (f.fault?.map fun fault => fault.message :: (fault.inner?.map Fault.message).toList).getD []

end Failure

end Unbundle
