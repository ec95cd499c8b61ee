/-
  Unbundle.Proofs.Tree.Path — where a file in a directory lies.

  A plain name holds no slash and is none of the names that lead nowhere or up. A path that joins a directory and a
  plain name consists of the parts of the directory and that name, and begins where the path of the directory does. So
  the file lies right in the directory, wherever that is and whatever links lead there, unless the name itself stands
  for a link.

  - `exists_parts_join`, `origin_join`: the parts of a joined path, and where it begins.
  - `exists_walk_of_append`, `walk_append`: parts are walked one after the other, each link at the cost of one.
  - `exists_follow_of_locate_join`: the place of a file under a plain name.
-/

import Unbundle.Proofs.Text
import Unbundle.Tree.Basic

namespace Unbundle

/-! ## The parts of a path -/

namespace Path

open Text

/-- A name that leads one level down: no slash in it, and none of the names that stay or go up. -/
def IsPlain (name : String) : Prop := '/' ∉ name.toList ∧ name ∉ ["", ".", ".."]

instance (name : String) : Decidable (IsPlain name) := inferInstanceAs (Decidable (_ ∧ _))

theorem parts_of_not_mem {name : String} (h : '/' ∉ name.toList) : parts name = [name] := by
  rw [parts, cutAt_of_not_mem h, List.map_singleton, String.ofList_toList]

theorem parts_append_slash (dir name : String) : parts (dir ++ "/" ++ name) = parts dir ++ parts name := by
  have hText : (dir ++ "/" ++ name).toList = dir.toList ++ '/' :: name.toList := by simp
  rw [parts, hText, cutAt_append, List.map_append]
  rfl

/-- The name stands behind the parts of the directory, but for an empty one at their end. -/
theorem exists_parts_join (dir : String) {name : String} (h : '/' ∉ name.toList) :
    ∃ ps, (parts dir = ps ∨ parts dir = ps ++ [""]) ∧ parts (join dir name) = ps ++ [name] := by
  unfold join
  by_cases hEmpty : dir = ""
  · refine ⟨[], .inr (by rw [hEmpty]; rfl), ?_⟩
    rw [if_pos (.inl hEmpty), hEmpty, String.empty_append, parts_of_not_mem h]
    rfl
  by_cases hSlash : dir.toList.getLast? = some '/'
  · obtain ⟨cs, hDir⟩ := List.getLast?_eq_some_iff.mp hSlash
    have hText : dir = String.ofList cs ++ "/" := by
      rw [← String.ofList_toList (s := dir), hDir, String.ofList_append]
    rw [if_pos (.inr hSlash), hText]
    refine ⟨parts (String.ofList cs), .inr ?_, ?_⟩
    · rw [← String.append_empty (s := String.ofList cs ++ "/"), parts_append_slash]
      rfl
    · rw [parts_append_slash, parts_of_not_mem h]
  · rw [if_neg (not_or.mpr ⟨hEmpty, hSlash⟩)]
    refine ⟨parts dir, .inl rfl, ?_⟩
    rw [parts_append_slash, parts_of_not_mem h]

theorem isAbsolute_join (dir : String) {name : String} (h : '/' ∉ name.toList) :
    isAbsolute (join dir name) = isAbsolute dir := by
  unfold join isAbsolute
  by_cases hEmpty : dir = ""
  · rw [if_pos (.inl hEmpty), hEmpty, String.empty_append]
    refine decide_eq_decide.mpr ⟨fun hHead => absurd (List.mem_of_head? hHead) h, fun hHead => ?_⟩
    cases hHead
  · have hFirst : ∀ rest : String, (dir ++ rest).toList.head? = dir.toList.head? := by
      intro rest
      obtain ⟨c, cs, hDir⟩ := List.exists_cons_of_ne_nil (l := dir.toList) (by simpa using hEmpty)
      rw [String.toList_append, hDir]
      rfl
    split
    · rw [hFirst]
    · rw [String.append_assoc, hFirst]

/-- More parts are climbed only if nothing is left of the first ones. -/
theorem climb_append (p : Place) (ps more : List String) : climb p (ps ++ more) =
    if (climb p ps).2 = [] then climb (climb p ps).1 more else ((climb p ps).1, (climb p ps).2 ++ more) := by
  induction ps generalizing p with
  | nil => rfl
  | cons part rest ih =>
    rw [List.cons_append, climb, climb]
    split
    · exact ih p
    · split
      · exact ih p.dropLast
      · rfl

theorem origin_append (here : Place) (path : String) (ps more : List String) : origin here path (ps ++ more) =
    if isAbsolute path = false ∧ (origin here path ps).2 = [] then climb (origin here path ps).1 more
    else ((origin here path ps).1, (origin here path ps).2 ++ more) := by
  unfold origin
  by_cases hAbsolute : isAbsolute path = true
  · simp [hAbsolute]
  · simp [hAbsolute, climb_append]

/-- A plain name stands behind what is left of the parts of its directory. -/
theorem origin_join (here : Place) (dir : String) (ps : List String) {name : String} (h : IsPlain name) :
    origin here (join dir name) (ps ++ [name]) = ((origin here dir ps).1, (origin here dir ps).2 ++ [name]) := by
  obtain ⟨hEmpty, hDot, hDots⟩ : name ≠ "" ∧ name ≠ "." ∧ name ≠ ".." := by simpa using h.2
  have hSame : ∀ ps, origin here (join dir name) ps = origin here dir ps := fun ps => by
    rw [origin, isAbsolute_join dir h.1, origin]
  rw [hSame, origin_append]
  split
  · rename_i hClimbed
    rw [hClimbed.2]
    simp [climb, isIdle, hEmpty, hDot, hDots]
  · rfl

/-- An empty part at the end is climbed, or left as the last. -/
theorem origin_concat_empty (here : Place) (path : String) (ps : List String) :
    (origin here path (ps ++ [""])).1 = (origin here path ps).1 ∧
      ((origin here path (ps ++ [""])).2 = (origin here path ps).2 ∨
        (origin here path (ps ++ [""])).2 = (origin here path ps).2 ++ [""]) := by
  rw [origin_append]
  split
  · rename_i hClimbed
    exact ⟨rfl, .inl hClimbed.2.symm⟩
  · exact ⟨rfl, .inr rfl⟩

end Path

/-! ## The place of a path -/

namespace Tree

variable {t : Tree} {p q r : Place} {name target : String} {parts more : List String} {n : Nat} {last : Bool}

theorem link?_of_directory (h : t.lookup? p = some .directory) : t.link? p = none := by
  unfold link?
  rw [h]

theorem get?_of_lookup?_directory (h : t.lookup? p = some .directory) : t.get? p = some .directory := by
  rw [get?, h]
  rfl

/-- A plain name leads from a directory one level down. -/
theorem step_plain (hName : Path.IsPlain name) (h : t.step p name = .ok q) :
    t.lookup? p = some .directory ∧ q = p ++ [name] := by
  obtain ⟨hEmpty, hDot, hDots⟩ : name ≠ "" ∧ name ≠ "." ∧ name ≠ ".." := by simpa using hName.2
  unfold step at h
  split at h
  · cases h
  · rename_i hDirectory
    rw [if_neg (by simp [Path.isIdle, hEmpty, hDot]), if_neg hDots] at h
    split at h
    · cases h
    · cases h
      exact ⟨hDirectory, rfl⟩
  · cases h

/-! ### Links on the way -/

theorem walk_nil (n : Nat) : t.walk last n p [] = .ok p := by
  cases n <;> rfl

theorem walk_cons_of_link?_eq_none {part : String} (hStep : t.step p part = .ok r) (hLink : t.link? r = none) :
    t.walk last n p (part :: parts) = t.walk last n r parts := by
  cases n <;> simp only [walk, walkWith, hStep, hLink, Except.bind]

/-- Where parts are walked to their end, the first either leads to no link, or one link less is left for the path that
    stands there and the other parts. -/
theorem walk_cons_eq_ok_iff {part : String} : t.walk true n p (part :: parts) = .ok q ↔
    ∃ r, t.step p part = .ok r ∧
      (t.link? r = none ∧ t.walk true n r parts = .ok q ∨
        ∃ target m, t.link? r = some target ∧ n = m + 1 ∧
          t.walk true m (if Path.isAbsolute target then [] else p) (Path.parts target ++ parts) = .ok q) := by
  cases n
  all_goals
    rw [walk, walkWith]
    rcases t.step p part with fault | r
    · simp [Except.bind]
    · rcases hLink : t.link? r with _ | target <;> simp [Except.bind, hLink]

/-- Parts are walked one after the other; the links on the way of the first ones are no longer there for the others. -/
theorem exists_walk_of_append {n : Nat} {p : Place} {parts : List String}
    (h : t.walk true n p (parts ++ more) = .ok q) :
    ∃ r m, t.walk true n p parts = .ok r ∧ t.walk true m r more = .ok q := by
  match parts with
  | [] => exact ⟨p, n, walk_nil n, h⟩
  | part :: rest =>
    rw [List.cons_append] at h
    obtain ⟨first, hStep, ⟨hLink, hRest⟩ | ⟨target, m, hLink, rfl, hTarget⟩⟩ := walk_cons_eq_ok_iff.mp h
    · obtain ⟨r, left, hWalk, hMore⟩ := exists_walk_of_append hRest
      exact ⟨r, left, walk_cons_eq_ok_iff.mpr ⟨first, hStep, .inl ⟨hLink, hWalk⟩⟩, hMore⟩
    · rw [← List.append_assoc] at hTarget
      obtain ⟨r, left, hWalk, hMore⟩ := exists_walk_of_append hTarget
      exact ⟨r, left, walk_cons_eq_ok_iff.mpr ⟨first, hStep, .inr ⟨target, m, hLink, rfl, hWalk⟩⟩, hMore⟩
termination_by (n, parts.length)

theorem walk_append {n : Nat} {p : Place} {parts : List String} (h : t.walk true n p parts = .ok r)
    (hMore : ∀ m, t.walk true m r more = .ok q) :
    t.walk true n p (parts ++ more) = .ok q := by
  match parts with
  | [] =>
    rw [walk_nil] at h
    cases h
    exact hMore n
  | part :: rest =>
    rw [List.cons_append]
    obtain ⟨first, hStep, ⟨hLink, hRest⟩ | ⟨target, m, hLink, rfl, hTarget⟩⟩ := walk_cons_eq_ok_iff.mp h
    · exact walk_cons_eq_ok_iff.mpr ⟨first, hStep, .inl ⟨hLink, walk_append hRest hMore⟩⟩
    · have hWalk := walk_append hTarget hMore
      rw [List.append_assoc] at hWalk
      exact walk_cons_eq_ok_iff.mpr ⟨first, hStep, .inr ⟨target, m, hLink, rfl, hWalk⟩⟩
termination_by (n, parts.length)

/-! ### Files in directories -/

theorem follow_eq_ok_iff {path : String} : t.follow last path parts = .ok q ↔
    (Path.origin t.here path parts).1.length ≤ t.kept ∧
      t.walk last linkLimit (Path.origin t.here path parts).1 (Path.origin t.here path parts).2 = .ok q := by
  unfold follow
  dsimp only
  split
  · rename_i hKept
    exact (and_iff_right hKept).symm
  · rename_i hLost
    exact ⟨nofun, fun h => absurd h.1 hLost⟩

/-- An empty part behind the parts of a directory leads nowhere else. -/
theorem walk_empty (h : t.lookup? p = some .directory) (m : Nat) : t.walk true m p [""] = .ok p := by
  have hStep : t.step p "" = .ok p := by simp [step, h, Path.isIdle]
  exact walk_cons_eq_ok_iff.mpr ⟨p, hStep, .inl ⟨link?_of_directory h, walk_nil m⟩⟩

/-- If parts and a plain name lead anywhere, then the parts lead to a directory, and the name right below it unless it
    stands for a link there. -/
theorem exists_walk_of_concat (hName : Path.IsPlain name) (h : t.walk true n p (parts ++ [name]) = .ok q) :
    ∃ r, t.walk true n p parts = .ok r ∧ t.lookup? r = some .directory ∧
      (t.link? (r ++ [name]) = none → q = r ++ [name]) := by
  obtain ⟨r, m, hWalk, hLast⟩ := exists_walk_of_append h
  obtain ⟨below, hStep, hEnd⟩ := walk_cons_eq_ok_iff.mp hLast
  obtain ⟨hDirectory, rfl⟩ := step_plain hName hStep
  refine ⟨r, hWalk, hDirectory, fun hNoLink => ?_⟩
  rcases hEnd with ⟨_, hThere⟩ | ⟨target, _, hLink, _⟩
  · rw [walk_nil] at hThere
    cases hThere
    rfl
  · rw [hNoLink] at hLink
    cases hLink

/-- If a path of a directory and a plain name leads anywhere, then the directory lies somewhere, and the path leads
    right below, unless a link stands there. -/
theorem exists_follow_of_locate_join {dir : String} (hName : Path.IsPlain name)
    (h : t.locate (Path.join dir name) = .ok q) :
    ∃ p, t.follow true dir (Path.parts dir) = .ok p ∧ t.get? p = some .directory ∧
      (t.link? (p ++ [name]) = none → q = p ++ [name]) := by
  obtain ⟨ps, hDir, hJoin⟩ := Path.exists_parts_join dir hName.1
  unfold locate at h
  split at h
  · cases h
  rw [hJoin, follow_eq_ok_iff, Path.origin_join t.here dir ps hName] at h
  obtain ⟨p, hWalk, hDirectory, hEnd⟩ := exists_walk_of_concat hName h.2
  refine ⟨p, follow_eq_ok_iff.mpr ?_, get?_of_lookup?_directory hDirectory, hEnd⟩
  rcases hDir with hDir | hDir
  · rw [hDir]
    exact ⟨h.1, hWalk⟩
  · -- a slash at the end of the directory
    obtain ⟨hStart, hRest⟩ := Path.origin_concat_empty t.here dir ps
    rw [hDir, hStart]
    refine ⟨h.1, ?_⟩
    rcases hRest with hRest | hRest
    · rw [hRest, hWalk]
    · rw [hRest, walk_append hWalk (walk_empty hDirectory)]

end Tree

end Unbundle
