/-
  Unbundle.Vocabulary — the words a schema scan reacts to.

  A scan knows a `Vocabulary` only: words that open a nesting level, starts of header lines, the marker of
  a command id, and a class for every word. The standard vocabulary belongs to Protocol Buffers schemas; the
  list of words that never count as imported types, and the marker, can be replaced.
-/

namespace Unbundle

/-- What a word at the start of a line stands for. -/
inductive WordClass where
  | nesting
  | scalar
  | label
  | map
  | directive
  | suppressed
  /-- Any other word: the name of a type. -/
  | custom
  deriving DecidableEq, Repr

/-- The words of a schema dialect. -/
structure Vocabulary where
  /-- Words that open a nesting level, in the order in which they are tried. -/
  nesting : List String
  /-- Starts of the lines that belong to the shared header. -/
  headers : List String
  /-- What a line with a command id starts with. -/
  marker : String
  classify : String → WordClass

namespace Vocabulary

def nestingWords : List String := ["message", "enum", "oneof"]

def scalarWords : List String :=
  ["bool", "string", "uint32", "uint64", "int32", "int64", "float", "double", "bytes", "fixed32", "fixed64",
    "sfixed32", "sfixed64"]

def labelWords : List String := ["repeated", "optional", "required"]

def mapWord : String := "map"

def directiveWords : List String := ["option", "reserved", "extensions", "syntax", "package", "import"]

def headerWords : List String := ["syntax", "package", "import"]

/-- The words that never count as imported types, unless a user names others. -/
def defaultSuppressed : List String := ["google"]

/-- The marker of command ids, unless a user names another. -/
def defaultMarker : String := "// CmdId:"

/-- A type built into the schema language. -/
def isScalar (word : String) : Bool := word ∈ scalarWords

/-- The class of a word: the first list that holds it decides. -/
def classOf (suppressed : List String) (word : String) : WordClass :=
  if word ∈ nestingWords then .nesting
  else if isScalar word then .scalar
  else if word ∈ labelWords then .label
  else if word = mapWord then .map
  else if word ∈ directiveWords then .directive
  else if word ∈ suppressed then .suppressed
  else .custom

/-- The vocabulary of Protocol Buffers schemas. -/
def standard (suppressed : List String) (marker : String) : Vocabulary where
  nesting := nestingWords
  headers := headerWords
  marker := marker
  classify := classOf suppressed

end Vocabulary

end Unbundle
