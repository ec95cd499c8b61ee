/-
  Unbundle.KeyTree — the keys of a glossary as a tree of characters, and the longest key a text starts with.

  A node stands for one character. `below` holds the continuations of the keys that run through it, `beside`
  the other characters possible at its place. The view of a tree is `get?`, the value held for a key; `insert`
  changes it at one key, and `longest?` finds the longest non-empty start of a text that `get?` knows.

  A `KeyTree` keeps a counter beside the tree, which goes up whenever a key is held for the first time.
-/

import Unbundle.Text.Utf8

namespace Unbundle

/-! ## Trees of characters -/

/-- A tree of characters with values at the ends of keys. -/
inductive CharTree where
  | nil
  | node (c : Char) (value? : Option String) (below beside : CharTree)
  deriving DecidableEq, Repr

/-- A key at the start of a text: the key, its value, and the text behind it. -/
structure KeyTree.Found where
  key : List Char
  value : String
  rest : List Char
  deriving DecidableEq, Repr

namespace CharTree

/-- The tree with the single key `c :: cs`. -/
def path (c : Char) (value : String) : List Char → CharTree
  | [] => .node c (some value) .nil .nil
  | d :: cs => .node c none (path d value cs) .nil

/-- The tree with a value set for a key. The empty key is never held. -/
def insert : CharTree → List Char → String → CharTree
  | t, [], _ => t
  | .nil, c :: cs, value => path c value cs
  | .node d value? below beside, c :: cs, value =>
    if c = d then
      match cs with
      | [] => .node d (some value) below beside
      | _ :: _ => .node d value? (below.insert cs value) beside
    else .node d value? below (beside.insert (c :: cs) value)

/-- The value held for a key. -/
def get? : CharTree → List Char → Option String
  | .nil, _ => none
  | _, [] => none
  | .node d value? below beside, c :: cs =>
    if c = d then
      match cs with
      | [] => value?
      | _ :: _ => below.get? cs
    else beside.get? (c :: cs)

/-- The longest key at the start of a text. -/
def longest? : CharTree → List Char → Option KeyTree.Found
  | .nil, _ => none
  | _, [] => none
  | .node d value? below beside, c :: cs =>
    if c = d then
      match below.longest? cs with
      | some found => some { found with key := c :: found.key }
      | none => value?.map fun value => ⟨[c], value, cs⟩
    else beside.longest? (c :: cs)

/-- How many keys a tree holds. -/
def count : CharTree → Nat
  | .nil => 0
  | .node _ value? below beside => (if value?.isSome then 1 else 0) + below.count + beside.count

/-! ### What is held, node by node -/

@[simp] theorem get?_nil (key : List Char) : CharTree.nil.get? key = none := by
  cases key <;> rfl

@[simp] theorem get?_empty (t : CharTree) : t.get? [] = none := by
  cases t <;> rfl

@[simp] theorem insert_empty (t : CharTree) (value : String) : t.insert [] value = t := by
  cases t <;> rfl

theorem get?_node_of_ne {c d : Char} (h : c ≠ d) (value? : Option String) (below beside : CharTree) (cs : List Char) :
    (node d value? below beside).get? (c :: cs) = beside.get? (c :: cs) := by
  simp only [get?, if_neg h]

theorem get?_node_single (c : Char) (value? : Option String) (below beside : CharTree) :
    (node c value? below beside).get? [c] = value? := by
  rw [get?, if_pos rfl]

theorem get?_node_self (c : Char) (value? : Option String) (below beside : CharTree) {cs : List Char} (h : cs ≠ []) :
    (node c value? below beside).get? (c :: cs) = below.get? cs := by
  obtain ⟨d, ds, rfl⟩ := List.exists_cons_of_ne_nil h
  rw [get?, if_pos rfl]

@[simp] theorem count_path (c : Char) (value : String) (cs : List Char) : (path c value cs).count = 1 := by
  induction cs generalizing c with
  | nil => rfl
  | cons d ds ih => simp [path, count, ih]

/-- A key that was held before does not count again. -/
theorem count_insert (t : CharTree) {key : List Char} (hKey : key ≠ []) (value : String) :
    (t.insert key value).count = t.count + if (t.get? key).isSome then 0 else 1 := by
  induction t generalizing key with
  | nil =>
    obtain ⟨c, cs, rfl⟩ := List.exists_cons_of_ne_nil hKey
    rw [insert, count_path, get?_nil]
    rfl
  | node d value? below beside ihBelow ihBeside =>
    obtain ⟨c, cs, rfl⟩ := List.exists_cons_of_ne_nil hKey
    unfold insert
    by_cases hc : c = d
    · subst hc
      rw [if_pos rfl]
      rcases cs with _ | ⟨e, es⟩
      · rw [get?_node_single]
        simp only [count]
        cases value? with
        | none => simp; omega
        | some old => simp
      · rw [get?_node_self _ _ _ _ (List.cons_ne_nil e es)]
        simp only [count, ihBelow (List.cons_ne_nil e es)]
        omega
    · rw [if_neg hc, get?_node_of_ne hc]
      simp only [count, ihBeside hKey]
      omega

/-! ### A found key and its rest make up the text -/

theorem longest?_eq_append {t : CharTree} {cs : List Char} {found : KeyTree.Found} (h : t.longest? cs = some found) :
    found.key ≠ [] ∧ cs = found.key ++ found.rest := by
  induction t generalizing cs found with
  | nil => simp [longest?] at h
  | node d value? below beside ihBelow ihBeside =>
    cases cs with
    | nil => simp [longest?] at h
    | cons c cs =>
      simp only [longest?] at h
      split at h
      · split at h
        · rename_i inner hInner
          cases h
          obtain ⟨_, happ⟩ := ihBelow hInner
          exact ⟨by simp, by rw [List.cons_append, ← happ]⟩
        · obtain ⟨value, _, hv⟩ := Option.map_eq_some_iff.mp h
          cases hv
          exact ⟨by simp, rfl⟩
      · exact ihBeside h

end CharTree

/-! ## Trees with a counter -/

/-- The keys of a glossary: the tree of their characters, and how many there are. -/
structure KeyTree where
  root : CharTree
  size : Nat
  /-- The counter tells how many keys the tree holds. -/
  size_eq : size = root.count
  deriving DecidableEq, Repr

namespace KeyTree

/-- A tree without keys. -/
def empty : KeyTree := ⟨.nil, 0, rfl⟩

/-- The tree with a value set for a key. The key is counted if nothing was held for it; the empty key is passed
    over. -/
def insert (t : KeyTree) (key : List Char) (value : String) : KeyTree where
  root := t.root.insert key value
  size := if key = [] ∨ (t.root.get? key).isSome then t.size else t.size + 1
  size_eq := by
    by_cases hKey : key = []
    · rw [if_pos (.inl hKey), hKey, CharTree.insert_empty, t.size_eq]
    · rw [CharTree.count_insert _ hKey, t.size_eq]
      by_cases hHeld : (t.root.get? key).isSome
      · simp [hHeld]
      · simp [hHeld, hKey]

/-- The value held for a key. -/
def get? (t : KeyTree) (key : List Char) : Option String := t.root.get? key

/-- The longest key at the start of a text. -/
def longest? (t : KeyTree) (cs : List Char) : Option Found := t.root.longest? cs

/-- Whether a tree holds no key. -/
def isEmpty (t : KeyTree) : Bool := t.size == 0

/-- The tree of a list of keys and values; of a repeated key the last value counts. -/
def ofList (pairs : List (String × String)) : KeyTree :=
  pairs.foldl (fun t p => t.insert p.1.toList p.2) empty

/-- The longest key at a place of a text given in bytes: where the key ends, and its value. None if the place
    is past the end or inside a character. -/
def longestAt? (t : KeyTree) (text : String) (start : Nat) : Option (Nat × String) := do
  let rest ← Text.dropBytes? start text.toList
  let found ← t.longest? rest
  return (start + Text.byteLength found.key, found.value)

theorem longest?_eq_append {t : KeyTree} {cs : List Char} {found : Found} (h : t.longest? cs = some found) :
    found.key ≠ [] ∧ cs = found.key ++ found.rest := CharTree.longest?_eq_append h

/-- A key found at a place ends behind it. -/
theorem lt_of_longestAt? {t : KeyTree} {text value : String} {start stop : Nat}
    (h : t.longestAt? text start = some (stop, value)) : start < stop := by
  obtain ⟨rest, _, h⟩ := Option.bind_eq_some_iff.mp h
  obtain ⟨found, hFound, h⟩ := Option.bind_eq_some_iff.mp h
  cases h
  exact Nat.lt_add_of_pos_right (Text.byteLength_pos (longest?_eq_append hFound).1)

/-- What is found between two characters of a text is what starts there. -/
theorem longestAt?_append (t : KeyTree) {text : String} {before rest : List Char} (h : text.toList = before ++ rest) :
    t.longestAt? text (Text.byteLength before) =
      (t.longest? rest).map fun found => (Text.byteLength before + Text.byteLength found.key, found.value) := by
  unfold longestAt?
  rw [h, Text.dropBytes?_append, Option.bind_eq_bind, Option.bind_some]
  cases t.longest? rest <;> rfl

end KeyTree

end Unbundle
