/-
  Unbundle.Glossary.Basic — the clear names of obfuscated names.
-/

import Unbundle.Event
import Unbundle.KeyTree
import Std.Data.ExtTreeMap

namespace Unbundle

/-- What was counted while a glossary was made. -/
structure GlossaryStats where
  /-- Rows with an obfuscated name and a clear name. -/
  records : Nat
  /-- Rows without. -/
  malformed : Nat
  /-- Names left out because their rows disagree. -/
  inconsistent : Nat
  /-- Names from which spaces were removed. -/
  normalized : Nat
  deriving DecidableEq, Repr

/-- Obfuscated names with their clear names, in code point order. -/
structure Glossary where
  entries : Std.ExtTreeMap String String
  stats : GlossaryStats

namespace Glossary

/-- The glossary without names. -/
def empty : Glossary := ⟨∅, ⟨0, 0, 0, 0⟩⟩

/-- The clear name of an obfuscated name. -/
def get? (g : Glossary) (key : String) : Option String := g.entries[key]?

/-- Names and clear names, in code point order of the names. -/
def toList (g : Glossary) : List (String × String) := g.entries.toList

def size (g : Glossary) : Nat := g.entries.size

/-- The tree in which lines look names up. -/
def keyTree (g : Glossary) : KeyTree := .ofList g.toList

end Glossary

end Unbundle
