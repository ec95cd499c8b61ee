/-
  Unbundle.Command.Arguments — the words behind the name of the program.

  A flag stands alone; an option takes a value, behind `=`, right behind its letter, or as the next word. Flags of
  one letter may stand together behind one dash. Each may be given once, `--verbose` any number of times. The
  first request for the version, or for help, ends the reading. Two dashes end the options, and nothing may come
  behind them.
-/

import Unbundle.Registry
import Unbundle.Text.Lines

namespace Unbundle.Command

/-- What stands alone. -/
inductive Flag where
  | verbose
  | dryRun
  | listOnly
  | keepExisting
  | version
  /-- Help in short, or in full. -/
  | help (full : Bool)
  deriving DecidableEq, Repr

/-- What takes a value. -/
inductive Key where
  | config
  | input
  | mapping
  | output
  | replaceOutput
  | conflictStrategy
  deriving DecidableEq, Repr

/-- One thing asked for. -/
inductive Item where
  | flag (f : Flag)
  | value (k : Key) (text : String)
  deriving DecidableEq, Repr

namespace Flag

def ofLetter? : Char → Option Flag
  | 'v' => some verbose
  | 'V' => some version
  | 'h' => some (help false)
  | _ => none

def ofName? : String → Option Flag
  | "verbose" => some verbose
  | "dry-run" => some dryRun
  | "list-only" => some listOnly
  | "keep-existing" => some keepExisting
  | "version" => some version
  | "help" => some (help true)
  | _ => none

/-- Whether nothing behind the flag is read. -/
def endsReading : Flag → Bool
  | version | help _ => true
  | verbose | dryRun | listOnly | keepExisting => false

end Flag

namespace Key

def ofLetter? : Char → Option Key
  | 'c' => some config
  | 'i' => some input
  | 'm' => some mapping
  | 'o' => some output
  | _ => none

def ofName? : String → Option Key
  | "config" => some config
  | "input" => some input
  | "mapping" => some mapping
  | "output" => some output
  | "replace-output" => some replaceOutput
  | "conflict-strategy" => some conflictStrategy
  | _ => none

end Key

/-! ## From words to items -/

/-- Whether nothing behind the item is read. -/
def Item.endsReading : Item → Bool
  | .flag f => f.endsReading
  | .value .. => false

/-- What one word asks for, and the option that waits for its value. -/
abbrev Word := List Item × Option Key

/-- Letters behind one dash. -/
def lettersOf? : List Char → Option Word
  | [] => some ([], none)
  | c :: rest =>
    match Flag.ofLetter? c, Key.ofLetter? c with
    | some f, _ =>
      if f.endsReading then some ([.flag f], none)
      else (lettersOf? rest).map fun w => (.flag f :: w.1, w.2)
    | none, some k =>
      match rest with
      | [] => some ([], some k)
      | '=' :: text => some ([.value k (String.ofList text)], none)
      | text => some ([.value k (String.ofList text)], none)
    | none, none => none

/-- A name behind two dashes, with the value behind `=` if there is one. -/
def nameOf? (name : String) (text? : Option String) : Option Word :=
  match Flag.ofName? name, Key.ofName? name, text? with
  | some f, _, none => some ([.flag f], none)
  | none, some k, none => some ([], some k)
  | none, some k, some text => some ([.value k text], none)
  | _, _, _ => none

/-- A word that is not a value. -/
def wordOf? (word : String) : Option Word :=
  match word.toList with
  | '-' :: '-' :: cs =>
    let name := cs.takeWhile (· ≠ '=')
    let text? := (cs.dropWhile (· ≠ '=')).tail?
    nameOf? (String.ofList name) (text?.map String.ofList)
  | '-' :: c :: cs => lettersOf? (c :: cs)
  | _ => none

/-- Words that may be the value of the option before them: all that have no dash in front, and the single dash. -/
def isValue (word : String) : Bool := word.toList.head? != some '-' || word = "-"

/-- What words ask for; `key?` is the option that waits for its value. -/
def itemsOf? : Option Key → List String → Option (List Item)
  | none, [] => some []
  | some _, [] => none
  | some k, word :: rest =>
    if isValue word then (itemsOf? none rest).map (.value k word :: ·) else none
  | none, word :: rest =>
    if word = "--" then if rest = [] then some [] else none
    else
      match wordOf? word with
      | none => none
      | some (items, key?) =>
        if items.any Item.endsReading then some items else (itemsOf? key? rest).map (items ++ ·)

/-! ## Arguments -/

/-- All that is asked for. -/
structure Arguments where
  config? : Option String
  input? : Option String
  mapping? : Option String
  output? : Option String
  replaceOutput? : Option String
  strategy? : Option ConflictStrategy
  /-- How often more is to be reported. -/
  verbosity : Nat
  dryRun : Bool
  listOnly : Bool
  keepExisting : Bool
  deriving DecidableEq, Repr

def strategyOfName? : String → Option ConflictStrategy
  | "hash-suffix" => some .hashSuffix
  | "skip-conflicts" => some .skipConflicts
  | _ => none

/-- A path that is given for the first time. -/
def pathOnce? (before? : Option String) (path : String) : Option (Option String) :=
  if before?.isSome ∨ path = "" then none else some (some path)

/-- A flag that is given for the first time. -/
def flagOnce? (before : Bool) : Option Bool := if before then none else some true

namespace Arguments

def empty : Arguments := ⟨none, none, none, none, none, none, 0, false, false, false⟩

/-- One more item. -/
def add? (a : Arguments) : Item → Option Arguments
  | .flag .verbose => some { a with verbosity := a.verbosity + 1 }
  | .flag .dryRun => (flagOnce? a.dryRun).map fun b => { a with dryRun := b }
  | .flag .listOnly => (flagOnce? a.listOnly).map fun b => { a with listOnly := b }
  | .flag .keepExisting => (flagOnce? a.keepExisting).map fun b => { a with keepExisting := b }
  | .flag .version | .flag (.help _) => some a
  | .value .config path => (pathOnce? a.config? path).map fun p => { a with config? := p }
  | .value .input path => (pathOnce? a.input? path).map fun p => { a with input? := p }
  | .value .mapping path => (pathOnce? a.mapping? path).map fun p => { a with mapping? := p }
  | .value .output path => (pathOnce? a.output? path).map fun p => { a with output? := p }
  | .value .replaceOutput path => (pathOnce? a.replaceOutput? path).map fun p => { a with replaceOutput? := p }
  | .value .conflictStrategy name =>
    if a.strategy?.isSome then none
    else (strategyOfName? name).map fun s => { a with strategy? := some s }

/-- What to do about conflicts: digests in names, unless something else was asked for. -/
def strategy (a : Arguments) : ConflictStrategy := a.strategy?.getD .hashSuffix

end Arguments

/-! ## Requests -/

/-- What the program is to do. -/
inductive Request where
  | version
  /-- Help in short, or in full. -/
  | help (full : Bool)
  | run (arguments : Arguments)
  deriving DecidableEq, Repr

/-- What an item asks for in place of a run. -/
def Item.request? : Item → Option Request
  | .flag .version => some .version
  | .flag (.help full) => some (.help full)
  | _ => none

/-- What words ask the program to do; nothing if they break the rules. -/
def Request.ofWords? (words : List String) : Option Request := do
  let items ← itemsOf? none words
  let arguments ← items.foldlM Arguments.add? .empty
  return (items.findSome? Item.request?).getD (.run arguments)

/-- The command line, read and explained. A library does both, so it is inferred like the formats. -/
class CommandLine where
  /-- What words ask the program to do; nothing if they break the rules. -/
  request? : List String → Option Request
  /-- Help in short, or in full. -/
  help : (full : Bool) → String

namespace CommandLine

/-- The rules above, and a reminder of the options. -/
instance own : CommandLine where
  request? := Request.ofWords?
  help _ := Text.unlines [
    "Usage: protosplit [OPTIONS]",
    "Options with a value: -c --config, -i --input, -m --mapping, -o --output, --replace-output,",
    "  --conflict-strategy hash-suffix|skip-conflicts",
    "Flags: -v --verbose, --dry-run, --list-only, --keep-existing, -h --help, -V --version"]

end CommandLine

end Unbundle.Command
