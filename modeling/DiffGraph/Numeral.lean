import DiffGraph.Scalar

/-!
# Written numbers

`Numeral` says how a number type is written: `plain` in expressions and messages,
`marked` where a reader has to see that it is a number with a fraction.
-/

namespace DiffGraph

class Numeral (α : Type) where
  plain : α → String
  marked : α → String

namespace Numeral

/-- Numbers in their marked form, in square brackets. -/
def markedList {α : Type} [Numeral α] (xs : List α) : String :=
  "[" ++ ", ".intercalate (xs.map marked) ++ "]"

end Numeral

end DiffGraph
