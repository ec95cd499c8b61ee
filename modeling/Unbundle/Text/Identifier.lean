/-
  Unbundle.Text.Identifier — the identifiers of schema files: runs of ASCII letters, digits and underscores.
-/

namespace Unbundle.Text

/-- The characters of an identifier. -/
def isIdentifierChar (c : Char) : Bool := c.isAlphanum || c == '_'

/-- The longest identifier at the start of a text with what follows it; none if the text starts with no
    identifier character. -/
def takeIdentifier? (cs : List Char) : Option (List Char × List Char) :=
  match cs.takeWhile isIdentifierChar with
  | [] => none
  | name => some (name, cs.dropWhile isIdentifierChar)

/-- A non-empty text of identifier characters only. -/
def IsIdentifier (s : String) : Prop := s.toList ≠ [] ∧ ∀ c ∈ s.toList, isIdentifierChar c = true

instance (s : String) : Decidable (IsIdentifier s) := inferInstanceAs (Decidable (_ ∧ _))

theorem takeIdentifier?_eq_some {cs name rest : List Char} (h : takeIdentifier? cs = some (name, rest)) :
    name ≠ [] ∧ (∀ c ∈ name, isIdentifierChar c = true) ∧ cs = name ++ rest := by
  unfold takeIdentifier? at h
  split at h
  · cases h
  · rename_i hne
    cases h
    exact ⟨fun h0 => hne h0, fun c hc => List.all_eq_true.mp List.all_takeWhile c hc,
      (List.takeWhile_append_dropWhile).symm⟩

end Unbundle.Text
