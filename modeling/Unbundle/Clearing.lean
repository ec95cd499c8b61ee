/-
  Unbundle.Clearing — clear names put into lines.

  A line is read from left to right. Where a key of the tree starts, the longest such key is taken and its
  value put in its place; any other character is copied. Word boundaries play no part. If a key was replaced
  by something else than itself, a note behind the line names every such key once.

  Places in a line are counted in bytes. A cut inside a character would end the reading without a result;
  `read?_eq` says that none is ever made, and that the pieces taken are those of `segments`, where nothing is
  counted.
-/

import Unbundle.Event
import Unbundle.KeyTree

namespace Unbundle

/-- A piece of a line: a key with its value, or one character at which no key starts. -/
inductive Segment where
  | name (key : List Char) (value : String)
  | copied (c : Char)
  deriving DecidableEq, Repr

namespace Segment

/-- What stands in the cleared line for a piece. -/
def output : Segment → List Char
  | name _ value => value.toList
  | copied c => [c]

/-- What stood in the line for a piece. -/
def input : Segment → List Char
  | name key _ => key
  | copied c => [c]

/-- The key and the value of a piece, if they differ. -/
def replacement? : Segment → Option (String × String)
  | name key value => if String.ofList key = value then none else some (String.ofList key, value)
  | copied _ => none

end Segment

/-- A line with clear names, and what was replaced in it, in order of first appearance. -/
structure ClearedLine where
  text : String
  replacements : List (String × String)
  deriving DecidableEq, Repr

/-- Whether anything in the line was replaced. -/
def ClearedLine.changed (l : ClearedLine) : Bool := !l.replacements.isEmpty

namespace Clearing

/-- How far a line is read: the place of the next character, the text put out so far, the keys that were
    replaced by something else, and these keys with their values. -/
structure Progress where
  place : Nat
  text : String
  seen : List String
  replacements : List (String × String)
  deriving DecidableEq, Repr

namespace Progress

def start : Progress := ⟨0, "", [], []⟩

/-- A key that ends at `stop`, with its value put in its place. -/
def replace (s : Progress) (key value : String) (stop : Nat) : Progress :=
  if key ≠ value ∧ key ∉ s.seen then
    ⟨stop, s.text ++ value, key :: s.seen, s.replacements ++ [(key, value)]⟩
  else ⟨stop, s.text ++ value, s.seen, s.replacements⟩

/-- A character at which no key starts. -/
def copy (s : Progress) (c : Char) : Progress :=
  { s with place := s.place + max c.utf8Size 1, text := s.text.push c }

@[simp] theorem place_replace (s : Progress) (key value : String) (stop : Nat) :
    (s.replace key value stop).place = stop := by
  unfold replace
  split <;> rfl

@[simp] theorem place_copy (s : Progress) (c : Char) : (s.copy c).place = s.place + c.utf8Size := by
  simp only [copy, Nat.max_eq_left c.utf8Size_pos]

end Progress

/-- What is read of a line, from a place on. -/
def read? (t : KeyTree) (line : String) (s : Progress) : Option Progress :=
  if s.place < Text.byteLength line.toList then
    match _ : t.longestAt? line s.place with
    | some (stop, value) =>
      (Text.slice? s.place stop line.toList).bind fun key => read? t line (s.replace (String.ofList key) value stop)
    | none =>
      (Text.dropBytes? s.place line.toList).bind fun rest => read? t line (s.copy (rest.headD '\x00'))
  else some s
termination_by Text.byteLength line.toList - s.place
decreasing_by
  · have := KeyTree.lt_of_longestAt? ‹_›
    rw [Progress.place_replace]
    omega
  · have := (rest.headD '\x00').utf8Size_pos
    rw [Progress.place_copy]
    omega

/-- The note behind a changed line. -/
def note (replacements : List (String × String)) : String :=
  " /*[" ++ ", ".intercalate (replacements.map fun p => p.1 ++ "->" ++ p.2) ++ "]*/"

/-- The line as it is put out, with a note about the replacements if `annotate` is set. -/
def Progress.finish (annotate : Bool) (s : Progress) : ClearedLine where
  text := if annotate && !s.replacements.isEmpty then s.text ++ note s.replacements else s.text
  replacements := s.replacements

/-- A line with clear names; none if a cut falls inside a character. An empty line is left unread, and so is every
    line if there are no keys. -/
def line? (t : KeyTree) (annotate : Bool) (text : String) : Option ClearedLine :=
  if text.isEmpty || t.isEmpty then some ⟨text, []⟩ else (read? t text .start).map (Progress.finish annotate)

/-! ## The pieces of a line -/

/-- The pieces of a line behind its first `skip` characters, which belong to a piece already taken. -/
def segmentsAfter (t : KeyTree) : Nat → List Char → List Segment
  | _, [] => []
  | skip + 1, _ :: cs => segmentsAfter t skip cs
  | 0, c :: cs =>
    match t.longest? (c :: cs) with
    | some found => .name found.key found.value :: segmentsAfter t (found.key.length - 1) cs
    | none => .copied c :: segmentsAfter t 0 cs

/-- The pieces of a line. -/
def segments (t : KeyTree) (cs : List Char) : List Segment := segmentsAfter t 0 cs

/-- What reading one piece changes. -/
def Progress.take (s : Progress) : Segment → Progress
  | .name key value => s.replace (String.ofList key) value (s.place + Text.byteLength key)
  | .copied c => s.copy c

theorem segmentsAfter_eq_drop (t : KeyTree) (skip : Nat) (cs : List Char) :
    segmentsAfter t skip cs = segments t (cs.drop skip) := by
  induction cs generalizing skip with
  | nil => cases skip <;> rfl
  | cons c cs ih =>
    cases skip with
    | zero => rfl
    | succ skip => simpa [segmentsAfter] using ih skip

theorem segments_of_longest?_eq_some {t : KeyTree} {cs : List Char} {found : KeyTree.Found}
    (h : t.longest? cs = some found) : segments t cs = .name found.key found.value :: segments t found.rest := by
  obtain ⟨hKey, hRest⟩ := KeyTree.longest?_eq_append h
  obtain ⟨c, key, hFound⟩ := List.exists_cons_of_ne_nil hKey
  rw [hFound, List.cons_append] at hRest
  rw [hRest] at h ⊢
  rw [segments, segmentsAfter, h]
  simp only [hFound, List.length_cons, Nat.add_sub_cancel, segmentsAfter_eq_drop, List.drop_left]

theorem segments_of_longest?_eq_none {t : KeyTree} {c : Char} {cs : List Char} (h : t.longest? (c :: cs) = none) :
    segments t (c :: cs) = .copied c :: segments t cs := by
  rw [segments, segmentsAfter, h, ← segments]

/-! ## No cut falls inside a character -/

section
variable {t : KeyTree} {line : String} {s : Progress} {before rest : List Char}

theorem read?_done (hLine : line.toList = before) (hPlace : s.place = Text.byteLength before) :
    read? t line s = some s := by
  rw [read?, hLine, hPlace, if_neg (Nat.lt_irrefl _)]

theorem read?_of_longest?_eq_some {found : KeyTree.Found} (hLine : line.toList = before ++ rest)
    (hPlace : s.place = Text.byteLength before) (hFound : t.longest? rest = some found) :
    read? t line s =
      read? t line (s.replace (String.ofList found.key) found.value (Text.byteLength (before ++ found.key))) := by
  obtain ⟨hKey, hRest⟩ := KeyTree.longest?_eq_append hFound
  have hLt : s.place < Text.byteLength line.toList := by
    have := Text.byteLength_pos hKey
    rw [hLine, hPlace, hRest, Text.byteLength_append, Text.byteLength_append]
    omega
  have hAt : t.longestAt? line s.place =
      some (Text.byteLength before + Text.byteLength found.key, found.value) := by
    rw [hPlace, KeyTree.longestAt?_append t hLine, hFound, Option.map_some]
  have hSlice : Text.slice? s.place (Text.byteLength before + Text.byteLength found.key) line.toList =
      some found.key := by
    rw [hPlace, hLine, hRest, Text.slice?_append]
  rw [read?, if_pos hLt]
  split
  · rename_i hMatch
    obtain ⟨rfl, rfl⟩ := Prod.mk.inj (Option.some.inj (hAt.symm.trans hMatch))
    rw [hSlice, Option.bind_some, Text.byteLength_append]
  · rename_i hMatch
    cases hAt.symm.trans hMatch

theorem read?_of_longest?_eq_none {c : Char} (hLine : line.toList = before ++ c :: rest)
    (hPlace : s.place = Text.byteLength before) (hNone : t.longest? (c :: rest) = none) :
    read? t line s = read? t line (s.copy c) := by
  have hLt : s.place < Text.byteLength line.toList := by
    have := c.utf8Size_pos
    rw [hLine, hPlace, Text.byteLength_append, Text.byteLength_cons]
    omega
  have hAt : t.longestAt? line s.place = none := by
    rw [hPlace, KeyTree.longestAt?_append t hLine, hNone, Option.map_none]
  rw [read?, if_pos hLt]
  split
  · rename_i hMatch
    cases hAt.symm.trans hMatch
  · rw [hPlace, hLine, Text.dropBytes?_append, Option.bind_some, List.headD_cons]

end

/-- A reading that starts between two characters takes the pieces of what is left of the line. -/
theorem read?_eq (t : KeyTree) {line : String} (before rest : List Char) {s : Progress}
    (hLine : line.toList = before ++ rest) (hPlace : s.place = Text.byteLength before) :
    read? t line s = some ((segments t rest).foldl Progress.take s) := by
  match rest with
  | [] => exact read?_done (hLine.trans (List.append_nil before)) hPlace
  | c :: cs =>
    match hFound : t.longest? (c :: cs) with
    | some found =>
      obtain ⟨hKey, hSplit⟩ := KeyTree.longest?_eq_append hFound
      rw [read?_of_longest?_eq_some hLine hPlace hFound, segments_of_longest?_eq_some hFound, List.foldl_cons,
        Progress.take, hPlace, ← Text.byteLength_append]
      exact read?_eq t (before ++ found.key) found.rest (by rw [hLine, hSplit, List.append_assoc])
        (Progress.place_replace ..)
    | none =>
      rw [read?_of_longest?_eq_none hLine hPlace hFound, segments_of_longest?_eq_none hFound, List.foldl_cons,
        Progress.take]
      exact read?_eq t (before ++ [c]) cs (by rw [hLine, List.append_assoc, List.singleton_append])
        (by rw [Progress.place_copy, hPlace, Text.byteLength_append]; rfl)
termination_by rest.length
decreasing_by
  · have := congrArg List.length hSplit
    have := List.length_pos_iff.mpr hKey
    simp only [List.length_append, List.length_cons] at *
    omega
  · simp only [List.length_cons]
    omega

theorem line?_isSome (t : KeyTree) (annotate : Bool) (text : String) : (line? t annotate text).isSome := by
  unfold line?
  split
  · rfl
  · rw [read?_eq t [] text.toList rfl rfl]
    rfl

/-! ## Lines -/

/-- A line with clear names, with a note about them if `annotate` is set. -/
def line (t : KeyTree) (annotate : Bool) (text : String) : ClearedLine :=
  (line? t annotate text).get (line?_isSome t annotate text)

/-- All lines of a schema with clear names. -/
def lines (t : KeyTree) (annotate : Bool) (texts : List String) : Logged (List ClearedLine) := do
  let cleared := texts.map (line t annotate)
  Logged.report (.linesCleared cleared.length (cleared.countP ClearedLine.changed))
  return cleared

end Clearing

end Unbundle
