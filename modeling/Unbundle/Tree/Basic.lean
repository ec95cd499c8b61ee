/-
  Unbundle.Tree.Basic — the files of a system as a program sees them, and what the operations on paths do to them.

  A place is the list of names on the way down from the root, which is `[]` and always a directory. A name stands for
  a directory, a file or a symbolic link. Files have numbers, so that one file may have several names; what is written
  through one of them is read through all.

  A path begins at the root if a slash stands in front, and otherwise at the working directory. It is walked part by
  part: a dot and an empty part stay where they are, two dots go up, and any other part goes down. Each part, the last
  one included, can only be looked up in a directory that exists. A link is replaced by the path it stands for, at the
  end of the way only if asked for.

  A program may remove the directory it works in. From there its paths still go up to the directories that are left,
  but nothing else can be reached, not even where a directory of the same name is made anew.

  An operation that may fail half way gives the tree it leaves behind together with the fault.
-/

import Unbundle.Failure
import Unbundle.Tree.Path

namespace Unbundle

/-- What a name stands for. -/
inductive Entry where
  | directory
  /-- The file with this number. -/
  | file (number : Nat)
  /-- A symbolic link, with the path it stands for. -/
  | link (target : String)
  deriving DecidableEq, Repr

/-- More than the number of a file. -/
def Entry.bound : Entry → Nat
  | file number => number + 1
  | directory | link _ => 0

/-- What is found at a place: a link shows nothing of its own. -/
inductive Node where
  | directory
  | file (bytes : List UInt8)
  deriving DecidableEq, Repr

namespace Node

/-- What a name stands for if its file, should it be one, has this number. -/
def entry (number : Nat) : Node → Entry
  | directory => .directory
  | file _ => .file number

def bytes? : Node → Option (List UInt8)
  | directory => none
  | file bytes => some bytes

end Node

/-- The files of a system, and where a program works in it. -/
structure Tree where
  /-- What the names stand for; each place is listed once. -/
  names : List (Place × Entry)
  /-- The bytes of files, by number. -/
  files : List (Nat × List UInt8)
  /-- The working directory. -/
  here : Place
  /-- How many names on the way to the working directory still stand for the directories they stood for when the
      program went there. -/
  kept : Nat
  deriving DecidableEq, Repr

namespace Tree

/-- A tree without links, in which each file has one name. -/
def of (nodes : List (Place × Node)) (here : Place := []) : Tree where
  names := nodes.zipIdx.map fun e => (e.1.1, e.1.2.entry e.2)
  files := nodes.zipIdx.filterMap fun e => e.1.2.bytes?.map (e.2, ·)
  here := here
  kept := here.length

/-- A root with nothing in it. -/
def empty : Tree := of []

/-- What the name at a place stands for. -/
def lookup? (t : Tree) (p : Place) : Option Entry :=
  if p = [] then some .directory else (t.names.find? (·.1 == p)).map Prod.snd

/-- The bytes of a file. -/
def bytesOf (t : Tree) (number : Nat) : List UInt8 := ((t.files.find? (·.1 == number)).map Prod.snd).getD []

/-- What is found where a name stands for an entry. -/
def node? (t : Tree) : Entry → Option Node
  | .directory => some .directory
  | .file number => some (.file (t.bytesOf number))
  | .link _ => none

/-- What is found at a place. -/
def get? (t : Tree) (p : Place) : Option Node := (t.lookup? p).bind t.node?

/-- All directories and files with their places. -/
def entries (t : Tree) : List (Place × Node) := t.names.filterMap fun e => (t.node? e.2).map (e.1, ·)

/-- The path that a symbolic link at a place stands for. -/
def link? (t : Tree) (p : Place) : Option String :=
  match t.lookup? p with
  | some (.link target) => some target
  | _ => none

/-! ## Changes at places -/

/-- The tree in which the name at a place stands for an entry. -/
def put (t : Tree) (p : Place) (e : Entry) : Tree := { t with names := (p, e) :: t.names.filter (·.1 != p) }

/-- A number that no file has. -/
def fresh (t : Tree) : Nat := (t.names.map (·.2.bound)).max?.getD 0

/-- The tree with a new file at a place. -/
def addFile (t : Tree) (p : Place) (bytes : List UInt8) : Tree :=
  { t.put p (.file t.fresh) with files := (t.fresh, bytes) :: t.files }

/-- The tree with other bytes in a file. -/
def setBytes (t : Tree) (number : Nat) (bytes : List UInt8) : Tree :=
  { t with files := (number, bytes) :: t.files.filter (·.1 != number) }

/-- The tree without anything below a place. A working directory that lay there is lost. -/
def clearBelow (t : Tree) (p : Place) : Tree :=
  { t with
    names := t.names.filter fun e => !e.1.isBelow p
    kept := if t.here.isBelow p then min t.kept p.length else t.kept }

/-! ### What stands where after a change -/

@[simp] theorem lookup?_root (t : Tree) : t.lookup? [] = some .directory := rfl

theorem lookup?_of_ne_root (t : Tree) {p : Place} (h : p ≠ []) :
    t.lookup? p = (t.names.find? (·.1 == p)).map Prod.snd := if_neg h

theorem lookup?_put_self (t : Tree) {p : Place} (e : Entry) (h : p ≠ []) : (t.put p e).lookup? p = some e := by
  simp [lookup?_of_ne_root _ h, put]

theorem lookup?_put_of_ne (t : Tree) {p q : Place} (e : Entry) (h : q ≠ p) : (t.put p e).lookup? q = t.lookup? q := by
  by_cases hq : q = []
  · rw [hq, lookup?_root, lookup?_root]
  · have hp : (p == q) = false := by simpa using Ne.symm h
    simp only [lookup?_of_ne_root _ hq, put, List.find?_cons, hp, List.find?_filter]
    congr 2
    funext e
    by_cases he : e.1 = q
    · simp [he, h]
    · simp [he]

theorem lookup?_addFile_self (t : Tree) {p : Place} (bytes : List UInt8) (h : p ≠ []) :
    (t.addFile p bytes).lookup? p = some (.file t.fresh) := t.lookup?_put_self _ h

theorem lookup?_addFile_of_ne (t : Tree) {p q : Place} (bytes : List UInt8) (h : q ≠ p) :
    (t.addFile p bytes).lookup? q = t.lookup? q := t.lookup?_put_of_ne _ h

@[simp] theorem lookup?_setBytes (t : Tree) (number : Nat) (bytes : List UInt8) (p : Place) :
    (t.setBytes number bytes).lookup? p = t.lookup? p := rfl

/-- No name stands for a file with the fresh number. -/
theorem ne_fresh (t : Tree) {p : Place} {number : Nat} (h : t.lookup? p = some (.file number)) : number ≠ t.fresh := by
  have hRoot : p ≠ [] := by
    rintro rfl
    cases h
  rw [t.lookup?_of_ne_root hRoot, Option.map_eq_some_iff] at h
  obtain ⟨e, hFound, hFile⟩ := h
  have hMem := List.mem_map_of_mem (f := (·.2.bound)) (List.mem_of_find?_eq_some hFound)
  rw [hFile] at hMem
  exact Nat.ne_of_lt (List.le_max?_getD_of_mem hMem)

@[simp] theorem bytesOf_setBytes_self (t : Tree) (number : Nat) (bytes : List UInt8) :
    (t.setBytes number bytes).bytesOf number = bytes := by
  simp [bytesOf, setBytes]

theorem bytesOf_setBytes_of_ne (t : Tree) {number other : Nat} (bytes : List UInt8) (h : other ≠ number) :
    (t.setBytes number bytes).bytesOf other = t.bytesOf other := by
  have hOther : (number == other) = false := by simpa using Ne.symm h
  simp only [bytesOf, setBytes, List.find?_cons, hOther, List.find?_filter]
  congr 3
  funext e
  by_cases he : e.1 = other
  · simp [he, h]
  · simp [he]

@[simp] theorem bytesOf_addFile_self (t : Tree) (p : Place) (bytes : List UInt8) :
    (t.addFile p bytes).bytesOf t.fresh = bytes := by
  simp [bytesOf, addFile]

theorem bytesOf_addFile_of_ne (t : Tree) (p : Place) {number : Nat} (bytes : List UInt8) (h : number ≠ t.fresh) :
    (t.addFile p bytes).bytesOf number = t.bytesOf number := by
  have hOther : (t.fresh == number) = false := by simpa using Ne.symm h
  simp only [bytesOf, addFile, put, List.find?_cons, hOther]

theorem lookup?_clearBelow_of_isBelow (t : Tree) {p dir : Place} (h : p.isBelow dir = true) :
    (t.clearBelow dir).lookup? p = none := by
  have hp : p ≠ [] := by
    rintro rfl
    cases dir <;> simp [Place.isBelow] at h
  simp only [lookup?_of_ne_root _ hp, clearBelow, List.find?_filter, Option.map_eq_none_iff, List.find?_eq_none]
  intro e _ he
  simp only [decide_eq_true_eq, beq_iff_eq] at he
  obtain ⟨hKept, rfl⟩ := he
  simp [h] at hKept

theorem lookup?_clearBelow_of_not_isBelow (t : Tree) {p dir : Place} (h : p.isBelow dir = false) :
    (t.clearBelow dir).lookup? p = t.lookup? p := by
  by_cases hp : p = []
  · rw [hp, lookup?_root, lookup?_root]
  · simp only [lookup?_of_ne_root _ hp, clearBelow, List.find?_filter]
    congr 2
    funext e
    by_cases he : e.1 = p
    · simp [he, h]
    · simp [he]

/-! ## From paths to places -/

/-- The longest name of a file or directory, in bytes. -/
def nameLimit : Nat := 255

/-- The longest path, in bytes. -/
def pathLimit : Nat := 4095

/-- How many links may be replaced on the way of one path. -/
def linkLimit : Nat := 40

/-- The place that a part of a path leads to. -/
def step (t : Tree) (p : Place) (part : String) : Except Fault Place :=
  match t.lookup? p with
  | none => .error .notFound
  | some .directory =>
    if Path.isIdle part then .ok p
    else if part = ".." then .ok p.dropLast
    else if nameLimit < part.utf8ByteSize then .error .nameTooLong
    else .ok (p ++ [part])
  | some _ => .error .notDirectory

/-- The place that parts lead to, where `enter` goes on behind a link. The link at the end is entered if `last` is
    set. -/
def walkWith (t : Tree) (last : Bool) (enter : Place → List String → Except Fault Place) :
    Place → List String → Except Fault Place
  | p, [] => .ok p
  | p, part :: rest =>
    (t.step p part).bind fun q =>
      match t.link? q with
      | none => t.walkWith last enter q rest
      | some target =>
        if rest = [] ∧ last = false then .ok q
        else enter (if Path.isAbsolute target then [] else p) (Path.parts target ++ rest)

/-- The place that parts lead to, through so many links at most. -/
def walk (t : Tree) (last : Bool) : Nat → Place → List String → Except Fault Place
  | 0 => t.walkWith last fun _ _ => .error .tooManyLinks
  | links + 1 => t.walkWith last (t.walk last links)

/-- The place that the parts of a path lead to, which begins at a directory that is not lost. -/
def follow (t : Tree) (last : Bool) (path : String) (parts : List String) : Except Fault Place :=
  let (p, rest) := Path.origin t.here path parts
  if p.length ≤ t.kept then t.walk last linkLimit p rest else .error .notFound

/-- What makes a path unusable in any tree. -/
def pathFault? (path : String) : Option Fault :=
  if '\x00' ∈ path.toList then some .nulInPath
  else if path = "" then some .notFound
  else if pathLimit < path.utf8ByteSize then some .nameTooLong
  else none

/-- The place that a path leads to. Something need not stand there, but all directories on the way exist. -/
def locate (t : Tree) (path : String) : Except Fault Place :=
  match pathFault? path with
  | some fault => .error fault
  | none => t.follow true path (Path.parts path)

/-! ## Looking -/

/-- What stands at the end of a path. -/
def find? (t : Tree) (path : String) : Option Node :=
  match t.locate path with
  | .error _ => none
  | .ok p => t.get? p

def isFile (t : Tree) (path : String) : Bool :=
  match t.find? path with
  | some (.file _) => true
  | _ => false

def isDirectory (t : Tree) (path : String) : Bool := t.find? path = some .directory

/-- The bytes of a file. -/
def read (t : Tree) (path : String) : Except Fault (List UInt8) :=
  (t.locate path).bind fun p =>
    match t.get? p with
    | none => .error .notFound
    | some .directory => .error .isDirectory
    | some (.file bytes) => .ok bytes

/-! ## Changing -/

/-- Makes one directory. Slashes at the end of the path count for nothing, and a link there is not entered. -/
def make (t : Tree) (path : String) : Except Fault Tree :=
  match pathFault? path with
  | some fault => .error fault
  | none =>
    (t.follow false path (Path.partsToMake path)).bind fun p =>
      if (t.lookup? p).isSome then .error .alreadyExists else .ok (t.put p .directory)

/-- Makes a directory unless it is there. -/
def ensure (t : Tree) (path : String) : Tree × Option Fault :=
  match t.make path with
  | .ok t => (t, none)
  | .error fault => (t, if t.isDirectory path then none else some fault)

/-- Makes the first of some directories unless it is there, and, if there is nothing to make it in, the others
    before it. Each path lies above the one in front of it. -/
def ensureChain (t : Tree) : List String → Tree × Option Fault
  | [] => (t, none)
  | path :: above =>
    match t.ensure path with
    | (_, some (.system 2)) =>
      match t.ensureChain above with
      | (t, none) => t.ensure path
      | (t, some fault) => (t, some fault)
    | done => done

/-- Makes a directory and all directories above it, those excepted that are there. -/
def ensureAll (t : Tree) (path : String) : Tree × Option Fault :=
  if path = "" then (t, none) else t.ensureChain (path :: Path.above path)

/-- Removes all that lies below a directory, links without what they stand for. -/
def clear (t : Tree) (path : String) : Tree × Option Fault :=
  match t.locate path with
  | .ok p => (t.clearBelow p, none)
  | .error (.system code) => (t, some (.walk path code))
  | .error fault => (t, some fault)

/-- Writes a file, over the one that is there. -/
def write (t : Tree) (path : String) (bytes : List UInt8) : Except Fault Tree :=
  (t.locate path).bind fun p =>
    match t.lookup? p with
    | none => .ok (t.addFile p bytes)
    | some (.file number) => .ok (t.setBytes number bytes)
    | some .directory => .error .isDirectory
    | some (.link _) => .error .tooManyLinks

end Tree

end Unbundle
