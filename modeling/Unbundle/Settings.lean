/-
  Unbundle.Settings — what a user can set, and how settings are read from a TOML document.

  Every setting has a default, keys nobody knows are passed over, and a value of the wrong type is refused. The
  tables inside may be given by name, or as an array of their values in the order of declaration; an array that
  is too short leaves the defaults, and what is too much is passed over.
-/

import Unbundle.Failure
import Unbundle.Formats
import Unbundle.Selection
import Unbundle.Vocabulary

namespace Unbundle

/-- What the scan and the selection go by. -/
structure ParserSettings where
  /-- What obfuscated names look like; empty if names are not looked at. -/
  obfuscatedNamePattern : String
  /-- Words that never count as imported types. -/
  suppressedTypes : List String
  deriving DecidableEq, Repr

/-- Names that never get a file. -/
structure BlacklistSettings where
  names : List String
  /-- A JSON object with more names: those whose value is `true`. -/
  file? : Option String
  deriving DecidableEq, Repr

/-- The opcode table. -/
structure OpcodeSettings where
  enabled : Bool
  /-- The first line of the generated class. -/
  packageHeader : String
  outputDir : String
  deriving DecidableEq, Repr

/-- Everything a user can set. -/
structure Settings where
  gameVersion : String
  inputFile : String
  mappingFile : String
  /-- Where the whole schema with clear names goes. -/
  replaceOutputDir : String
  /-- Where the files of the blocks go. -/
  splitOutputDir : String
  /-- Lines at the end of the shared header. -/
  headerContent : List String
  clearOutputDirs : Bool
  annotateReplacements : Bool
  parser : ParserSettings
  blacklist : BlacklistSettings
  opcodes : OpcodeSettings
  deriving DecidableEq, Repr

namespace ParserSettings

def default : ParserSettings where
  obfuscatedNamePattern := Selection.defaultPattern
  suppressedTypes := Vocabulary.defaultSuppressed

end ParserSettings

namespace BlacklistSettings

def default : BlacklistSettings := ⟨[], none⟩

end BlacklistSettings

namespace OpcodeSettings

def default : OpcodeSettings where
  enabled := true
  packageHeader := "package emu.grasscutter.net.packet;"
  outputDir := "proto/packet_opcodes_output"

end OpcodeSettings

namespace Settings

def default : Settings where
  gameVersion := "1.0.0"
  inputFile := "proto/input/all_in_one.proto"
  mappingFile := "proto/input/mapping.tsv"
  replaceOutputDir := "proto/all_in_one_proto_output"
  splitOutputDir := "proto/dispersible_proto_output"
  headerContent := ["option java_package = \"emu.grasscutter.net.proto\";"]
  clearOutputDirs := true
  annotateReplacements := true
  parser := .default
  blacklist := .default
  opcodes := .default

/-- The first line of the shared header. -/
def gameVersionLine (s : Settings) : String := "// Game Version: " ++ s.gameVersion

end Settings

/-! ## Settings from a document -/

namespace Toml

/-- The fields of a structure, found by name or by place. -/
abbrev Fields := String → Nat → Option Value

/-- The fields that a value gives. A date gives none of them. -/
def Value.fields? : Value → Option Fields
  | .table _ members => some fun name _ => Members.get? members name
  | .array items => some fun _ place => items[place]?
  | .tables items => some fun _ place => (items.reverse[place]?).map (.table .header)
  | .date => some fun _ _ => none
  | .string _ | .bool _ | .number => none

def Value.string? : Value → Option String
  | .string s => some s
  | _ => none

def Value.bool? : Value → Option Bool
  | .bool b => some b
  | _ => none

def Value.strings? : Value → Option (List String)
  | .array items => items.mapM Value.string?
  | _ => none

/-- A field, or its default if it is missing. -/
def Fields.get? {α : Type} (f : Fields) (name : String) (place : Nat) (read : Value → Option α) (default : α) :
    Option α :=
  match f name place with
  | none => some default
  | some v => read v

end Toml

open Toml

def ParserSettings.ofValue? (v : Value) : Option ParserSettings := do
  let f ← v.fields?
  let d := ParserSettings.default
  return {
    obfuscatedNamePattern := ← f.get? "obfuscated_name_pattern" 0 Value.string? d.obfuscatedNamePattern
    suppressedTypes := ← f.get? "suppressed_types" 1 Value.strings? d.suppressedTypes }

def BlacklistSettings.ofValue? (v : Value) : Option BlacklistSettings := do
  let f ← v.fields?
  let d := BlacklistSettings.default
  return {
    names := ← f.get? "names" 0 Value.strings? d.names
    file? := ← f.get? "file" 1 (fun v => v.string?.map some) d.file? }

def OpcodeSettings.ofValue? (v : Value) : Option OpcodeSettings := do
  let f ← v.fields?
  let d := OpcodeSettings.default
  return {
    enabled := ← f.get? "enabled" 0 Value.bool? d.enabled
    packageHeader := ← f.get? "package_header" 1 Value.string? d.packageHeader
    outputDir := ← f.get? "output_dir" 2 Value.string? d.outputDir }

namespace Settings

def ofMembers? (m : Members) : Option Settings := do
  let f : Fields := fun name _ => m.get? name
  let d := Settings.default
  return {
    gameVersion := ← f.get? "game_version" 0 Value.string? d.gameVersion
    inputFile := ← f.get? "input_file" 1 Value.string? d.inputFile
    mappingFile := ← f.get? "mapping_file" 2 Value.string? d.mappingFile
    replaceOutputDir := ← f.get? "replace_output_dir" 3 Value.string? d.replaceOutputDir
    splitOutputDir := ← f.get? "split_output_dir" 4 Value.string? d.splitOutputDir
    headerContent := ← f.get? "header_content" 5 Value.strings? d.headerContent
    clearOutputDirs := ← f.get? "clear_output_dirs" 6 Value.bool? d.clearOutputDirs
    annotateReplacements := ← f.get? "annotate_replacements" 7 Value.bool? d.annotateReplacements
    parser := ← f.get? "parser" 8 ParserSettings.ofValue? d.parser
    blacklist := ← f.get? "blacklist" 9 BlacklistSettings.ofValue? d.blacklist
    opcodes := ← f.get? "opcodes" 10 OpcodeSettings.ofValue? d.opcodes }

/-- The settings that a text holds. -/
def ofText [Formats] (text : String) : Except Failure Settings :=
  match Formats.toml text with
  | .error reason => .error (.badSettings reason)
  | .ok members =>
    match ofMembers? members with
    | none => .error (.badSettings "a value has the wrong type")
    | some s => .ok s

end Settings

/-! ## Blacklists -/

/-- The names whose value is `true` in a JSON object, in code point order. -/
def blacklistOfText [Formats] (text : String) : Except Failure (List String) :=
  match Formats.json text with
  | .error reason => .error (.badBlacklist reason)
  | .ok members =>
    let names := (members.map Prod.fst).eraseDups
    let chosen := names.filter fun name => ((Json.get? members name).map Json.isTrue).getD false
    .ok (chosen.mergeSort fun a b => decide (a ≤ b))

/-- The names set directly, and those of the blacklist file, which `readFile` reads. -/
def BlacklistSettings.resolve [Formats] (readFile : String → Except Fault String) (b : BlacklistSettings) :
    Except Failure (List String) :=
  match b.file? with
  | none => .ok b.names
  | some path =>
    match readFile path with
    | .error fault => .error (.fileRead path fault)
    | .ok text => (blacklistOfText text).map (b.names ++ ·)

end Unbundle
