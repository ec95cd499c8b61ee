/-
  Unbundle.Registry — names for the files of blocks that share a name.

  A file with a name and digest that were admitted before is a duplicate. The first file of a name gets the name
  itself. A later one with another digest is a conflict: it gets the name with its digest in it, or is left out.
-/

import Unbundle.Event

namespace Unbundle

/-- What is done with a file whose name is taken by a file with other contents. -/
inductive ConflictStrategy where
  | hashSuffix
  | skipConflicts
  deriving DecidableEq, Repr

/-- The names given so far. -/
structure Registry where
  /-- The files that were given a name: their own names and their digests, the newest first. -/
  admitted : List (String × String)
  /-- Files asked about. -/
  found : Nat
  /-- Files that were given no name. -/
  skipped : Nat
  /-- Files with their digest in the name. -/
  renamed : Nat
  /-- Files that were given a name. -/
  written : Nat
  deriving DecidableEq, Repr

namespace Registry

def empty : Registry := ⟨[], 0, 0, 0, 0⟩

/-- What ends the names of schema files. -/
def ending : String := ".proto"

/-- A file name with a digest in it: in front of the ending, if it has that ending. -/
def withDigest (fileName digest : String) : String :=
  let cs := fileName.toList
  if ending.toList.isSuffixOf cs then
    String.ofList (cs.take (cs.length - ending.length)) ++ "~" ++ digest ++ ending
  else fileName ++ "~" ++ digest

def isDuplicate (r : Registry) (fileName digest : String) : Bool := r.admitted.contains (fileName, digest)

/-- Whether a file of this name was admitted. -/
def isTaken (r : Registry) (fileName : String) : Bool := r.admitted.any (·.1 == fileName)

/-- The registry after a file was left out. -/
def skip (r : Registry) : Registry := { r with found := r.found + 1, skipped := r.skipped + 1 }

/-- The registry after a file was given its own name, or one with its digest. -/
def accept (r : Registry) (fileName digest : String) (renames : Bool) : Registry where
  admitted := (fileName, digest) :: r.admitted
  found := r.found + 1
  skipped := r.skipped
  renamed := if renames then r.renamed + 1 else r.renamed
  written := r.written + 1

/-- Asks for a name for a file. -/
def enter (r : Registry) (strategy : ConflictStrategy) (fileName digest : String) :
    Logged (Registry × Option String) :=
  if r.isDuplicate fileName digest then do
    Logged.report (.duplicateSkipped fileName digest)
    return (r.skip, none)
  else if !r.isTaken fileName then
    return (r.accept fileName digest false, some fileName)
  else
    match strategy with
    | .skipConflicts => do
      Logged.report (.conflictSkipped fileName digest)
      return (r.skip, none)
    | .hashSuffix => do
      let renamed := withDigest fileName digest
      Logged.report (.conflictRenamed fileName renamed)
      return (r.accept fileName digest true, some renamed)

/-- What the registry did, in numbers. -/
def summary (r : Registry) : Event := .summary r.found r.skipped r.renamed r.written

example : withDigest "A.proto" "abc123" = "A~abc123.proto" ∧ withDigest "README" "x" = "README~x" := by decide

end Registry

end Unbundle
