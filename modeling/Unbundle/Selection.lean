/-
  Unbundle.Selection — which blocks get a file, and what they import.

  Every block is pruned first. A block is then judged by its name, its command id, and the imports of all
  pruned blocks, those that get no file included. Blocks with a command id get a file unless their name still
  looks obfuscated; blocks without one get a file if some block imports them; a blacklisted block never does.
-/

import Unbundle.Event
import Unbundle.Failure
import Unbundle.Formats
import Unbundle.Schema.Block

namespace Unbundle

/-- Why a block gets a file or none. -/
inductive Eligibility where
  /-- It has a command id. -/
  | command
  /-- It has none, but some block imports it. -/
  | dependency
  /-- It has a command id, but its name looks obfuscated. -/
  | obfuscated
  /-- It has no command id, and no block imports it. -/
  | unreferenced
  /-- Its name is blacklisted. -/
  | blacklisted
  deriving DecidableEq, Repr

namespace Eligibility

/-- Whether a file is laid out. -/
def isEmitted : Eligibility → Bool
  | command | dependency => true
  | obfuscated | unreferenced | blacklisted => false

def name : Eligibility → String
  | command => "Command"
  | dependency => "Dependency"
  | obfuscated => "Obfuscated"
  | unreferenced => "Unreferenced"
  | blacklisted => "Blacklisted"

end Eligibility

/-- A pruned block and the verdict on it. -/
structure JudgedBlock where
  block : Block
  eligibility : Eligibility
  deriving DecidableEq, Repr

namespace JudgedBlock

def isEmitted (b : JudgedBlock) : Bool := b.eligibility.isEmitted

/-- The types that the block's file imports. -/
def imports (b : JudgedBlock) : List String := b.block.references

end JudgedBlock

/-- What decides about blocks besides the blocks themselves. -/
structure Selection where
  /-- Which names look obfuscated; none if names are not looked at. -/
  obfuscated? : Option (String → Bool)
  /-- Names that never get a file. -/
  blacklist : List String

namespace Selection

/-- Names of capital letters only look obfuscated, unless a user says otherwise. -/
def defaultPattern : String := "^[A-Z]+$"

/-- The selection for a pattern and a blacklist; the empty pattern stands for none. -/
def make [Formats] (pattern : String) (blacklist : List String) : Except Failure Selection :=
  if pattern = "" then .ok ⟨none, blacklist⟩
  else
    match Formats.pattern pattern with
    | .ok found => .ok ⟨some found, blacklist⟩
    | .error reason => .error (.badPattern reason)

/-- The default pattern stands for capital letters from the start of a name to its end. -/
theorem read?_defaultPattern : Pattern.read? defaultPattern =
    some (.seq (.assertion .textStart) (.seq (.times (.set (.range 65 90)) 1 none) (.assertion .textEnd))) := by
  decide +kernel

/-- The selection unless a user says otherwise. -/
def default : Selection := ⟨(Pattern.read? defaultPattern).map Pattern.Expr.isFoundIn, []⟩

def looksObfuscated (s : Selection) (name : String) : Bool :=
  (s.obfuscated?.map (· name)).getD false

/-- The verdict on a block, given the names that pruned blocks import. -/
def judge (s : Selection) (imported : List String) (b : Block) : Eligibility :=
  if s.blacklist.contains b.name then .blacklisted
  else if b.hasCommandId then if s.looksObfuscated b.name then .obfuscated else .command
  else if imported.contains b.name then .dependency
  else .unreferenced

/-- All blocks, pruned and judged, in their order. -/
def judgeAll (s : Selection) (blocks : List Block) : List JudgedBlock :=
  let pruned := blocks.map Block.pruned
  let imported := pruned.flatMap Block.references
  pruned.map fun b => ⟨b, s.judge imported b⟩

/-- All blocks, pruned and judged, with a report on each. -/
def resolve (s : Selection) (blocks : List Block) : Logged (List JudgedBlock) := do
  let judged := s.judgeAll blocks
  Logged.reportAll (judged.map fun b => .blockJudged b.block.name b.eligibility.name)
  Logged.report (.blocksSelected judged.length (judged.countP JudgedBlock.isEmitted))
  return judged

end Selection

end Unbundle
