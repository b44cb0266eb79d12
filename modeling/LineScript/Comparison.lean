/-
The relational operators.
-/
namespace LineScript

inductive Comparison
  | equal | unequal | atLeast | above | atMost | below
  deriving DecidableEq, Repr

namespace Comparison

/-- The token that a comparison is written with. -/
def symbol : Comparison → String
  | equal => "=="
  | unequal => "!="
  | atLeast => ">="
  | above => ">"
  | atMost => "<="
  | below => "<"

/-- All comparisons. -/
def all : List Comparison :=
  [equal, unequal, atLeast, above, atMost, below]

/-- The comparison that a token writes. -/
def ofToken? (token : String) : Option Comparison :=
  all.find? fun comparison => comparison.symbol = token

@[simp]
theorem ofToken?_symbol (comparison : Comparison) :
    ofToken? comparison.symbol = some comparison := by
  cases comparison <;> decide

end Comparison

def isRelational (token : String) : Bool :=
  (Comparison.ofToken? token).isSome

end LineScript
