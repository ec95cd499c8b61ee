/-
  Unbundle.Formats — the formats that settings, blacklists and name patterns are written in.

  A run does not read these formats itself, it asks libraries: whether a text follows the format, and what it then
  stands for. `Formats` is all that a run knows about the libraries. It is inferred, so that everything said about runs
  is said for any libraries whatever. The program goes by the readers that stand here (`Formats.own`).
-/

import Unbundle.Json
import Unbundle.Pattern.Reading
import Unbundle.Pattern.Search
import Unbundle.Toml.Reading

namespace Unbundle

/-- What texts stand for, or why they are refused. -/
class Formats where
  /-- The top level of a TOML document. -/
  toml : String → Except String Toml.Members
  /-- The members of a JSON object, in their order. -/
  json : String → Except String (List (String × Json))
  /-- Whether a regular expression matches some part of a name. -/
  pattern : String → Except String (String → Bool)

namespace Formats

instance own : Formats where
  toml text := (Toml.readDocument? text).elim (.error "not a TOML document") .ok
  json text := (Json.readObject? text).elim (.error "not a JSON object") .ok
  pattern text := (Pattern.read? text).elim (.error "not a regular expression") fun e => .ok e.isFoundIn

end Formats

end Unbundle
