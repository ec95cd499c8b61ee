/-
  Unbundle.Text.Reader — readers of text formats.

  A reader takes characters from the front of a text and gives a value, or refuses. Two combinators make
  grammars with repetition and nesting total: `loop` repeats a step, and `nested` lets a reader use itself.
  Both may go on for one round more than there are characters, which is enough whenever every round takes a
  character; beyond that they refuse.
-/

namespace Unbundle.Text

/-- Takes characters from the front of a text, or refuses. -/
abbrev Reader := StateT (List Char) Option

namespace Reader

variable {α σ ι : Type}

/-- Refuses. -/
def refuse : Reader α := fun _ => none

/-- The next character, which is taken. -/
def item : Reader Char
  | [] => none
  | c :: cs => some (c, cs)

/-- The next character, which stays; none at the end of the text. -/
def peek? : Reader (Option Char) := fun cs => some (cs.head?, cs)

/-- The text that is left. -/
def left : Reader (List Char) := fun cs => some (cs, cs)

/-- Takes `n` characters. -/
def skip (n : Nat) : Reader Unit := fun cs => some ((), cs.drop n)

/-- Takes the given character, or refuses. -/
def char (c : Char) : Reader Unit := do
  if (← item) != c then refuse

/-- Takes the given characters if the text starts with them, and tells whether it did. -/
def startsWith (start : String) : Reader Bool := fun cs =>
  if start.toList.isPrefixOf cs then some (true, cs.drop start.toList.length) else some (false, cs)

/-- Takes the given characters, or refuses. -/
def text (s : String) : Reader Unit := do
  if !(← startsWith s) then refuse

/-- Takes characters as long as they pass. -/
def takeWhile (p : Char → Bool) : Reader (List Char) := fun cs => some (cs.takeWhile p, cs.dropWhile p)

/-- Takes a number of characters that all pass, or refuses. -/
def takeExactly (n : Nat) (p : Char → Bool) : Reader (List Char) := fun cs =>
  let taken := cs.take n
  if taken.length = n ∧ taken.all p then some (taken, cs.drop n) else none

/-- Refuses unless the text is at its end. -/
def atEnd : Reader Unit
  | [] => some ((), [])
  | _ :: _ => none

/-- At most `n` rounds of a step. -/
def rounds (step : σ → Reader (σ ⊕ α)) : Nat → σ → Reader α
  | 0, _ => refuse
  | n + 1, s => do
    match ← step s with
    | .inl s => rounds step n s
    | .inr a => return a

/-- Repeats a step until it gives a value. -/
def loop (step : σ → Reader (σ ⊕ α)) (s : σ) : Reader α := fun cs => rounds step (cs.length + 1) s cs

/-- A reader that may use itself, at most `n` levels deep. -/
def levels (f : (ι → Reader α) → ι → Reader α) : Nat → ι → Reader α
  | 0 => fun _ => refuse
  | n + 1 => f (levels f n)

/-- A reader that may use itself. -/
def nested (f : (ι → Reader α) → ι → Reader α) (i : ι) : Reader α := fun cs => levels f (cs.length + 1) i cs

/-- Reads a whole text. -/
def readAll (r : Reader α) (s : List Char) : Option α :=
  match r s with
  | some (a, []) => some a
  | _ => none

end Reader

end Unbundle.Text
