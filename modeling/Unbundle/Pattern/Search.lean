/-
  Unbundle.Pattern.Search — where a text holds a match.

  A search keeps the expressions that are left to match, from all places where a match may have started. A pattern
  is found in a text if it matches some part of it.
-/

import Unbundle.Pattern.Distinct

namespace Unbundle.Pattern.Expr

/-- Whether one of the running expressions matches a start of the text, or `fresh` matches from a later place on. -/
def searchFrom (fresh : Expr) : List Expr → Option Char → List Char → Bool
  | running, before, [] => running.any (·.nullable before none)
  | running, before, c :: cs =>
    running.any (·.nullable before (some c)) ||
      searchFrom fresh (distinct (fresh :: running.flatMap (·.derivatives before c))) (some c) cs

/-- Whether an expression matches some part of a text. -/
def isFoundIn (e : Expr) (text : String) : Bool := searchFrom e [e] none text.toList

end Unbundle.Pattern.Expr
